import Ape.Lib.Rounds
import Ape.Proofs.Bytes
import Ape.Proofs.DescriptorRuns
import Ape.Proofs.Handles
import Ape.Proofs.FrameRuns

/-!
# `Ape.Proofs.Offsets`: what a read or a write says it moved

`do_read` and `do_write` move chunks of a page and add each one to the position in the handle.
`sys_rw_vector` does this for each entry of its table. An error at any chunk or entry leaves the
loop by `?`, and what was moved before it stays moved.

`chunkRound` and `entryRound` are one round of each loop. `transfer_matches_iff` says when the
result of a call is what the position went ahead by: when no round fails once something was moved,
and neither the total nor the position reaches its bound.
-/

set_option autoImplicit false

namespace Ape

open Ape.Lib Cmd

/-- The two directions of a transfer. -/
inductive Transfer where
  | read | write
  deriving DecidableEq

namespace Transfer

/-- `do_read` or `do_write`. -/
def call : Transfer → Nat → Nat → Nat → Nat → M Nat
  | .read => doRead
  | .write => doWrite

/-- `do_readv` or `do_writev`. -/
def vector : Transfer → Nat → Nat → Nat → Nat → M Nat
  | .read => doReadv
  | .write => doWritev

end Transfer

/-! ### The rounds of a call -/

/-- One round of `do_read`. -/
def readRound (pid bufPtr len total : Nat) : H (Nat × Bool) :=
  if total < len then do
    let handle ← gets (·.2)
    let bytes ← inFst (fsRead handle.fsEpSlot handle.offset (min (len - total) FS_SYNC_RW_CHUNK))
    if bytes = [] then pure (total, false)
    else do
      let userDst ← getSome (checkedAdd bufPtr total) .invalidAddress
      inFst (copyToUser pid userDst bytes)
      advanceOffset bytes.length
      pure (total + bytes.length, !decide (bytes.length < min (len - total) FS_SYNC_RW_CHUNK))
  else pure (total, false)

/-- One round of `do_write`. -/
def writeRound (pid bufPtr len total : Nat) : H (Nat × Bool) :=
  if total < len then do
    let userSrc ← getSome (checkedAdd bufPtr total) .invalidAddress
    let bytes ← inFst (copyFromUser pid userSrc (min (len - total) FS_SYNC_RW_CHUNK))
    let handle ← gets (·.2)
    let written ← inFst (fsWrite handle.fsEpSlot handle.offset bytes)
    advanceOffset written
    pure (total + written, !decide (written < min (len - total) FS_SYNC_RW_CHUNK))
  else pure (total, false)

/-- One round of a transfer. -/
def Transfer.chunkRound (d : Transfer) (pid bufPtr len : Nat) :
    Round Unit (World × FileHandle) Err := fun _ =>
  match d with
  | .read => readRound pid bufPtr len
  | .write => writeRound pid bufPtr len

/-- One round of `sys_rw_vector`. -/
def Transfer.entryRound (d : Transfer) (pid fd iovPtr : Nat) : Round Nat World Err :=
  fun i total => do
    let iovAddr ← getSome (checkedAdd iovPtr (i * 16)) .invalidAddress
    let raw ← copyFromUser pid iovAddr 16
    if leNat (raw.drop 8) = 0 then pure (total, true)
    else do
      let n ← d.call pid fd (leNat (raw.take 8)) (leNat (raw.drop 8))
      if asIsize n < 0 then pure (n, false)
      else pure (satAdd total n, !decide (n < leNat (raw.drop 8)))

/-- The loop of `do_read` is the loop over its rounds. -/
theorem readLoop_eq_rounds (pid bufPtr len fuel total : Nat) :
    readLoop pid bufPtr len fuel total =
      runRounds (Transfer.read.chunkRound pid bufPtr len) (List.replicate fuel ()) total := by
  -- both loops take the same steps, so the induction is on the fuel
  induction fuel generalizing total with
  | zero => rfl
  | succ fuel ih =>
    rw [List.replicate_succ, runRounds, Transfer.chunkRound, readRound, readLoop]
    by_cases hlt : total < len
    · rw [if_pos hlt, if_pos hlt, bind_bind]
      -- the chunk is read, copied out, and the offset moves; a short chunk ends the loop
      refine bind_congr fun handle => ?_
      rw [bind_bind]
      refine bind_congr fun bytes => ?_
      by_cases hnil : bytes = []
      · rw [if_pos hnil, if_pos hnil]
        rfl
      rw [if_neg hnil, if_neg hnil, bind_bind]
      refine bind_congr fun userDst => ?_
      rw [bind_bind]
      refine bind_congr fun _ => ?_
      rw [bind_bind, ih]
      exact bind_congr fun _ => (runRounds_step _ _ _ _).symm
    · rw [if_neg hlt, if_neg hlt]
      rfl

/-- The loop of `do_write` is the loop over its rounds. -/
theorem writeLoop_eq_rounds (pid bufPtr len fuel total : Nat) :
    writeLoop pid bufPtr len fuel total =
      runRounds (Transfer.write.chunkRound pid bufPtr len) (List.replicate fuel ()) total := by
  induction fuel generalizing total with
  | zero => rfl
  | succ fuel ih =>
    rw [List.replicate_succ, runRounds, Transfer.chunkRound, writeRound, writeLoop]
    by_cases hlt : total < len
    · rw [if_pos hlt, if_pos hlt, bind_bind]
      refine bind_congr fun userSrc => ?_
      rw [bind_bind]
      refine bind_congr fun bytes => ?_
      rw [bind_bind]
      refine bind_congr fun handle => ?_
      rw [bind_bind]
      refine bind_congr fun written => ?_
      rw [bind_bind, ih]
      exact bind_congr fun _ => (runRounds_step _ _ _ _).symm
    · rw [if_neg hlt, if_neg hlt]
      rfl

/-- The loop of `sys_rw_vector` is the loop over its rounds. -/
theorem rwVectorLoop_eq_rounds (d : Transfer) (pid fd iovPtr total : Nat) (l : List Nat) :
    rwVectorLoop pid iovPtr (d.call pid fd) l total =
      runRounds (d.entryRound pid fd iovPtr) l total := by
  induction l generalizing total with
  | nil => rfl
  | cons i rest ih =>
    rw [runRounds, Transfer.entryRound, rwVectorLoop, bind_bind]
    refine bind_congr fun iovAddr => ?_
    rw [bind_bind]
    refine bind_congr fun raw => ?_
    by_cases hlen : leNat (raw.drop 8) = 0
    · rw [if_pos hlen, if_pos hlen]
      exact ih total
    rw [if_neg hlen, if_neg hlen, bind_bind]
    refine bind_congr fun n => ?_
    by_cases hneg : asIsize n < 0
    · rw [if_pos hneg, if_pos hneg]
      rfl
    rw [if_neg hneg, if_neg hneg, ih]
    exact (runRounds_step _ _ _ _).symm

/-! ### The bytes of a round -/

/-- A copy from user memory has at most the bytes that were asked for. -/
theorem copyFromUserLoop_length (pid fuel cursor n : Nat) :
    Triple (fun _ => True) (copyFromUserLoop pid fuel cursor n) (fun bytes _ => bytes.length ≤ n)
      fun _ _ => True := by
  induction fuel generalizing cursor n with
  | zero => exact Triple.pure fun _ _ => Nat.zero_le _
  | succ fuel ih =>
    unfold copyFromUserLoop
    refine Triple.ite (fun _ => Triple.pure fun _ _ => Nat.zero_le _) fun _ => ?_
    refine Triple.bind (triple_true _) fun m => Triple.ite (fun _ => Triple.throw fun _ h => h) ?_
    intro _
    refine Triple.bind (triple_true _) fun scratch => ?_
    refine Triple.bind (R := fun bytes _ => bytes.length = min (m.size - (cursor - m.vaddr)) n)
      (Triple.gets fun s _ => by rw [List.length_map, List.length_range]) fun bytes => ?_
    refine Triple.of_pre fun s hbytes => ?_
    refine Triple.bind ((ih _ _).pre fun _ _ => trivial) fun rest => Triple.pure fun _ hrest => ?_
    rw [List.length_append, hbytes]
    omega

/-- A copy from a process has at most the bytes that were asked for. -/
theorem copyFromUser_length (pid userSrc n : Nat) :
    Triple (fun _ => True) (copyFromUser pid userSrc n) (fun bytes _ => bytes.length ≤ n)
      fun _ _ => True := by
  have hsession : Triple (fun _ => True) (sessionCopyFromUser pid userSrc n)
      (fun bytes _ => bytes.length ≤ n) fun _ _ => True := by
    refine Triple.ite (fun _ => Triple.pure fun _ _ => Nat.zero_le _) fun _ => ?_
    exact Triple.ite (fun _ => Triple.throw fun _ h => h) fun _ => copyFromUserLoop_length _ _ _ _
  unfold copyFromUser withUserSession
  refine Triple.bind (R := fun r _ => ∀ bytes, r.1 = .ok bytes → bytes.length ≤ n)
    (Triple.runWith (hsession.pre fun _ _ => trivial) ?_ ?_) ?_
  · intro bytes _ _ h bytes' hbytes
    cases hbytes
    exact h
  · intro e _ _ _ bytes' hbytes
    cases hbytes
  · intro r
    refine Triple.of_pre fun s h => ?_
    refine Triple.bind (triple_true _ |>.pre fun _ _ => trivial) fun cleanup => ?_
    refine Triple.bind (R := fun bytes _ => bytes.length ≤ n)
      (Triple.ofExcept (fun bytes _ hr _ => h bytes hr) fun _ _ _ _ => trivial) fun bytes => ?_
    refine Triple.bind (R := fun _ _ => bytes.length ≤ n)
      (Triple.ofExcept (fun _ _ _ h => h) fun _ _ _ _ => trivial) fun _ => Triple.pure fun _ h => h

/-- A read of the file service has at most the bytes that were asked for. -/
theorem fsRead_length (slot offset len : Nat) :
    Triple (fun _ => True) (fsRead slot offset len) (fun bytes _ => bytes.length ≤ len)
      fun _ _ => True := by
  unfold fsRead
  refine Triple.bind (triple_true _) fun a => Triple.bind (triple_true _) fun _ =>
    Triple.pure fun _ _ => ?_
  rw [List.length_map, List.length_range]
  exact Nat.min_le_right _ _

/-- A write of the file service takes at most the bytes that it was given. -/
theorem fsWrite_length (slot offset : Nat) (bytes : List UInt8) :
    Triple (fun _ => True) (fsWrite slot offset bytes) (fun n _ => n ≤ bytes.length)
      fun _ _ => True := by
  unfold fsWrite
  exact Triple.bind (triple_true _) fun a => Triple.bind (triple_true _) fun _ =>
    Triple.pure fun _ _ => Nat.min_le_right _ _

/-! ### One round of `do_read` or `do_write` -/

/-- A round goes on from the handle `h`: it adds to the total what it adds to the position, and the
total stays within `len`. -/
structure RoundFrom (h : FileHandle) (len total : Nat) (r : Nat × Bool) (s : World × FileHandle) :
    Prop where
  ahead : total ≤ r.1
  within : total ≤ len → r.1 ≤ len
  handle : s.2 = { h with offset := min (h.offset + (r.1 - total)) usizeMax }

/-- A command of the server leaves the handle alone, and its value is as it says. -/
theorem inFst_handle {α : Type} {c : M α} {p : α → Prop} (h : FileHandle)
    (hc : Triple (fun _ => True) c (fun a _ => p a) fun _ _ => True) :
    Triple (fun s : World × FileHandle => s.2 = h) (inFst c) (fun a s => p a ∧ s.2 = h)
      fun _ s => s.2 = h :=
  fun s hs => ⟨fun a ha => ⟨(hc s.1 trivial).1 a ha, hs⟩, fun _ _ => hs⟩

/-- A round of a transfer moves the offset by what it transferred. -/
theorem advanceOffset_round (h : FileHandle) {len total n : Nat} (hlt : total < len)
    (hn : n ≤ len - total) (more : Bool) :
    Triple (fun s => s.2 = h) (do advanceOffset n; pure (total + n, more)) (RoundFrom h len total)
      fun _ s => s.2 = h := by
  refine Triple.bind (R := fun _ s => s.2 = { h with offset := satAdd h.offset n })
    (Triple.modify ?_) fun _ => Triple.pure fun s hs => ⟨Nat.le_add_right _ _, ?_, ?_⟩
  · intro s hs
    show { s.2 with offset := satAdd s.2.offset n } = _
    rw [hs]
  · intro _
    show total + n ≤ len
    omega
  · rw [hs, Nat.add_sub_cancel_left]
    rfl

/-- A round adds to the position what it adds to the total, and one that fails leaves the handle as
it is. -/
theorem Transfer.chunkRound_from (d : Transfer) (pid bufPtr len total : Nat) {h : FileHandle}
    (hoffset : h.offset ≤ usizeMax) :
    Triple (fun s => s.2 = h) (d.chunkRound pid bufPtr len () total) (RoundFrom h len total)
      fun _ s => s.2 = h := by
  have hstay : ∀ s : World × FileHandle, s.2 = h → RoundFrom h len total (total, false) s := by
    rintro s rfl
    -- a round that stops leaves the offset where the call found it
    refine ⟨Nat.le_refl _, id, ?_⟩
    rw [Nat.sub_self, Nat.add_zero, Nat.min_eq_left hoffset]
  cases d with
  -- a read asks the backend first and a write asks it last, and both advance by the answer
  | read =>
    unfold Transfer.chunkRound readRound
    refine Triple.ite (fun hlt => ?_) fun _ => Triple.pure hstay
    refine Triple.bind (R := fun _ s => s.2 = h) (Triple.gets fun _ hs => hs) fun handle => ?_
    refine Triple.bind (inFst_handle h (fsRead_length _ _ _)) fun bytes =>
      Triple.of_fact fun hbytes => Triple.ite (fun _ => Triple.pure hstay) fun _ => ?_
    refine Triple.bind (R := fun _ s => s.2 = h)
      (Triple.getSome (fun _ _ _ hs => hs) fun _ _ hs => hs) fun userDst => ?_
    refine Triple.bind (inFst_handle h (p := fun _ => True) (triple_true _)) fun _ =>
      Triple.of_fact fun _ => advanceOffset_round h hlt (hbytes.trans (Nat.min_le_left _ _)) _
  | write =>
    unfold Transfer.chunkRound writeRound
    refine Triple.ite (fun hlt => ?_) fun _ => Triple.pure hstay
    refine Triple.bind (R := fun _ s => s.2 = h)
      (Triple.getSome (fun _ _ _ hs => hs) fun _ _ hs => hs) fun userSrc => ?_
    refine Triple.bind (inFst_handle h (copyFromUser_length _ _ _)) fun bytes =>
      Triple.of_fact fun hbytes => ?_
    refine Triple.bind (R := fun _ s => s.2 = h) (Triple.gets fun _ hs => hs) fun handle => ?_
    refine Triple.bind (inFst_handle h (fsWrite_length _ _ _)) fun written =>
      Triple.of_fact fun hwritten => advanceOffset_round h hlt ?_ _
    exact hwritten.trans (hbytes.trans (Nat.min_le_left _ _))

/-- `isize::MAX + 1`. -/
def isizeLim : Nat := 2 ^ 63

/-- Nothing is moved by a chunk that fails. -/
def noneLost (_ : Unit) (_ : Nat) (_ : World × FileHandle) : Prop := False

section Chunks

variable {d : Transfer} {pid bufPtr len total t : Nat} {more : Bool} {s s' : World × FileHandle}

/-- A round that succeeds moved the offset by what it transferred. -/
theorem Transfer.chunkRound_ok (hs : s.2.offset ≤ usizeMax)
    (hrun : (d.chunkRound pid bufPtr len () total).run s = (.ok (t, more), s')) :
    RoundFrom s.2 len total (t, more) s' := by
  have h := ((d.chunkRound_from pid bufPtr len total hs) s rfl).1 (t, more) (congrArg Prod.fst hrun)
  rwa [hrun] at h

/-- A round that fails left the offset. -/
theorem Transfer.chunkRound_error {e : Err} (hs : s.2.offset ≤ usizeMax)
    (hrun : (d.chunkRound pid bufPtr len () total).run s = (.error e, s')) : s'.2 = s.2 := by
  have h := ((d.chunkRound_from pid bufPtr len total hs) s rfl).2 e (congrArg Prod.fst hrun)
  rwa [hrun] at h

/-- The rounds of `do_read` and `do_write` move the position of the handle. -/
theorem Transfer.chunks_moving (d : Transfer) (pid bufPtr len : Nat) (l : List Unit) :
    Moving (d.chunkRound pid bufPtr len) usizeMax isizeLim (fun s => s.2.offset)
      (fun s => s.2.offset ≤ usizeMax) noneLost l where
  below _ h := h
  keeps _ _ total s t more s' hs hrun := by
    have h := chunkRound_ok hs hrun
    have hle : total ≤ t := h.ahead
    have hpos : s'.2.offset = min (s.2.offset + (t - total)) usizeMax := by rw [h.handle]
    refine ⟨?_, ?_, fun hlim => hlim.trans hle, fun _ => ⟨hle, hpos⟩⟩
    · rw [hpos]
      exact Nat.min_le_right _ _
    · show s.2.offset ≤ s'.2.offset
      rw [hpos]
      omega
  fails _ _ total s e s' hs hrun _ := congrArg FileHandle.offset (chunkRound_error hs hrun)

end Chunks

/-! ### A call through a descriptor -/

/-- The position of the file that is open in `fd`. -/
def World.positionOf (w : World) (pid fd : Nat) : Option Nat := (w.openAt pid fd).map (·.offset)

/-- A call that starts at the position `offset` has the result that goes with what it moved. It
returns, as an `isize`, what the position went ahead by; or it fails, the position stayed, and
nothing was moved. -/
structure ResultMatches (call : M Nat) (pid fd offset : Nat) (moved : Prop) (w : World) : Prop where
  value : ∀ n w', call.run w = (.ok n, w') →
    ∃ offset', w'.positionOf pid fd = some offset' ∧ (offset' : Int) = offset + asIsize n
  error : ∀ e w', call.run w = (.error e, w') → w'.positionOf pid fd = some offset ∧ ¬ moved

/-- A small number is the same when it is signed. -/
theorem asIsize_of_lt {n : Nat} (h : n < isizeLim) : asIsize n = n := by
  unfold asIsize isizeLim at *
  rw [BitVec.toInt_eq_toNat_bmod, BitVec.toNat_ofNat, Int.bmod_def]
  omega

/-- A large number is negative when it is signed. -/
theorem asIsize_neg {n : Nat} (h : isizeLim ≤ n) (hn : n ≤ usizeMax) : asIsize n < 0 := by
  unfold asIsize isizeLim usizeMax usizeMod at *
  rw [BitVec.toInt_eq_toNat_bmod, BitVec.toNat_ofNat, Int.bmod_def]
  omega

section Matches

variable {ι σ : Type} {round : Round ι σ Err} {pos : σ → Nat} {I : σ → Prop}
  {Lost : ι → Nat → σ → Prop} {l : List ι} {s s' : σ} {r : Except Err Nat} {call : M Nat}
  {pid fd : Nat} {w w' : World}

/-- A call that is a loop of rounds matches its result when the loop is smooth, and only then. -/
theorem resultMatches_iff (hmoving : Moving round usizeMax isizeLim pos I Lost l) (hs : I s)
    (hrun : (runRounds round l 0).run s = (r, s')) (hcall : call.run w = (r, w'))
    (hpos : w'.positionOf pid fd = some (pos s')) (hmax : ∀ n, r = .ok n → n ≤ usizeMax) :
    ResultMatches call pid fd (pos s) (Moved round Lost l s) w ↔
      Smooth round usizeMax isizeLim pos Lost l 0 s := by
  rw [← runRounds_exact_iff hmoving hs (by decide)]
  constructor
  · intro h
    constructor
    · intro n s₁ hn
      obtain ⟨rfl, rfl⟩ : r = .ok n ∧ s' = s₁ := by simpa using hrun.symm.trans hn
      obtain ⟨offset', hoffset, heq⟩ := h.value n w' hcall
      obtain rfl : pos s' = offset' := by simpa using hpos.symm.trans hoffset
      have hahead := (hmoving.value hs hrun).2.1
      -- a value past the range of `isize` comes back negative, which is no way ahead
      have hlt : n < isizeLim := by
        by_contra hge
        have := asIsize_neg (Nat.le_of_not_lt hge) (hmax n rfl)
        omega
      rw [asIsize_of_lt hlt] at heq
      exact ⟨hlt, by omega⟩
    · intro e s₁ he
      obtain ⟨rfl, rfl⟩ : r = .error e ∧ s' = s₁ := by simpa using hrun.symm.trans he
      obtain ⟨hoffset, hmoved⟩ := h.error e w' hcall
      exact ⟨by simpa using hpos.symm.trans hoffset, hmoved⟩
  -- an exact loop has a value in range, or an error before anything was moved
  · intro h
    constructor
    · intro n w₁ hn
      obtain ⟨rfl, rfl⟩ : r = .ok n ∧ w' = w₁ := by simpa using hcall.symm.trans hn
      obtain ⟨hlt, heq⟩ := h.value n s' hrun
      refine ⟨pos s', hpos, ?_⟩
      rw [asIsize_of_lt hlt, heq]
      rfl
    · intro e w₁ he
      obtain ⟨rfl, rfl⟩ : r = .error e ∧ w' = w₁ := by simpa using hcall.symm.trans he
      obtain ⟨heq, hmoved⟩ := h.error e s' hrun
      exact ⟨heq ▸ hpos, hmoved⟩

end Matches

section Calls

variable {d : Transfer} {pid fd bufPtr len : Nat} {handle : FileHandle} {w w' : World}

/-- The call moves a chunk and goes on with the next one. -/
def Transfer.moves (d : Transfer) (pid fd bufPtr len : Nat) (w : World) : Prop :=
  ∃ handle, w.openAt pid fd = some handle ∧
    Moved (d.chunkRound pid bufPtr len) noneLost (List.replicate len ())
      (w.handleOut pid fd, handle)

/-- The table of a process after a change of it. -/
theorem World.filesOf_modifyFiles (w : World) (pid : Nat) (f : FilesState → FilesState) :
    ((modifyFiles pid f).run w).2.filesOf pid = (w.filesOf pid).map f := by
  show (w.modifyTask pid fun t => { t with files := f t.files }).fileView.files pid = _
  rw [w.fileView_modifyFiles]
  exact if_pos rfl

/-- A handle that was put back is open. -/
theorem World.openAt_handleBack {fs : FilesState} (hfd : fd < 2 ^ 32)
    (hfs : w.filesOf pid = some fs) : (w.handleBack pid fd handle).openAt pid fd = some handle := by
  have hfiles : (w.handleBack pid fd handle).filesOf pid = some (fs.insertFd fd handle) := by
    unfold World.handleBack
    rw [World.filesOf_modifyFiles, hfs]
    rfl
  rw [World.openAt, if_neg (Nat.not_le.mpr hfd), hfiles]
  exact OrdMap.get?_insert_self _ _ _

/-- An open descriptor is in the table of a process that is there. -/
theorem World.openAt_some (h : w.openAt pid fd = some handle) :
    fd < 2 ^ 32 ∧ ∃ fs, w.filesOf pid = some fs := by
  unfold World.openAt at h
  split at h
  · cases h
  · rename_i hfd
    obtain ⟨fs, hfs, -⟩ := Option.bind_eq_some_iff.mp h
    exact ⟨Nat.lt_of_not_le hfd, fs, hfs⟩

/-- The rounds leave the tables alone. -/
theorem Transfer.chunks_filesOf (d : Transfer) (pid bufPtr len q fuel : Nat) :
    Frames (fun s : World × FileHandle => s.1.filesOf q)
      (runRounds (d.chunkRound pid bufPtr len) (List.replicate fuel ()) 0) := by
  refine Frames.of_keeps fun fs => ?_
  have hframe : ∀ {α : Type} (c : M α), Frames World.fileView c →
      Keeps (fun s : World × FileHandle => s.1.filesOf q = fs) (inFst c) :=
    fun c hc => Keeps.inFst (hc.keeps fun v => v.files q = fs)
  cases d with
  | read =>
    rw [← readLoop_eq_rounds]
    exact readLoop_keeps_of (fun _ _ hs => hs) (fun _ _ _ => hframe _ (by simp [fsRead]))
      (fun _ _ => hframe _ (copyToUser_frames _ _ _)) _ _
  | write =>
    rw [← writeLoop_eq_rounds]
    exact writeLoop_keeps_of (fun _ _ hs => hs) (fun _ _ _ => hframe _ (by simp [fsWrite]))
      (fun _ _ => hframe _ (copyFromUser_frames _ _ _)) _ _

/-- A transfer of some bytes is a run of its rounds on the handle. -/
theorem Transfer.call_eq (d : Transfer) (hlen : len ≠ 0) : d.call pid fd bufPtr len =
    withFdHandleMut pid fd
      (runRounds (d.chunkRound pid bufPtr len) (List.replicate len ()) 0) := by
  cases d with
  | read => exact (if_neg hlen).trans (congrArg _ (readLoop_eq_rounds pid bufPtr len len 0))
  | write => exact (if_neg hlen).trans (congrArg _ (writeLoop_eq_rounds pid bufPtr len len 0))

/-- A call on an open descriptor is the loop over its rounds, and the handle goes back. -/
theorem Transfer.call_run (d : Transfer) (hopen : w.openAt pid fd = some handle)
    (bufPtr len : Nat) :
    ∃ r s' w', (runRounds (d.chunkRound pid bufPtr len) (List.replicate len ()) 0).run
        (w.handleOut pid fd, handle) = (r, s') ∧
      (d.call pid fd bufPtr len).run w = (r, w') ∧ w'.openAt pid fd = some s'.2 := by
  by_cases hlen : len = 0
  · subst hlen
    refine ⟨.ok 0, (w.handleOut pid fd, handle), w, rfl, ?_, hopen⟩
    cases d <;> rfl
  obtain ⟨hfd, fs, hfs⟩ := World.openAt_some hopen
  refine ⟨_, _, _, rfl, (congrArg (Cmd.run · w) (d.call_eq hlen)).trans
    (run_withFdHandleMut hopen _), ?_⟩
  · refine World.openAt_handleBack hfd (?_ : _ = some (fs.removeFd fd))
    refine (d.chunks_filesOf pid bufPtr len pid len (w.handleOut pid fd, handle)).trans ?_
    show (w.handleOut pid fd).filesOf pid = _
    unfold World.handleOut
    rw [World.filesOf_modifyFiles, hfs]
    rfl

/-- The total of a call stays within the length. -/
theorem Transfer.chunks_within {s s' : World × FileHandle} {n : Nat}
    (hs : s.2.offset ≤ usizeMax)
    (hrun : (runRounds (d.chunkRound pid bufPtr len) (List.replicate len ()) 0).run s
      = (.ok n, s')) :
    n ≤ len := by
  refine (runRounds_value (P := fun total s => total ≤ len ∧ s.2.offset ≤ usizeMax)
    (fun _ _ total s t more s' h hround => ?_) ⟨Nat.zero_le _, hs⟩ hrun).1
  have hfrom := chunkRound_ok h.2 hround
  refine ⟨hfrom.within h.1, ?_⟩
  rw [hfrom.handle]
  exact Nat.min_le_right _ _

/-- A call matches its result when its chunks are smooth, and only then. -/
theorem Transfer.call_matches_iff (d : Transfer) (hopen : w.openAt pid fd = some handle)
    (hoffset : handle.offset ≤ usizeMax) (hlen : len ≤ usizeMax) :
    ResultMatches (d.call pid fd bufPtr len) pid fd handle.offset (d.moves pid fd bufPtr len w) w ↔
      Smooth (d.chunkRound pid bufPtr len) usizeMax isizeLim (fun s => s.2.offset) noneLost
        (List.replicate len ()) 0 (w.handleOut pid fd, handle) := by
  obtain ⟨r, s', w', hrun, hcall, hopen'⟩ := d.call_run hopen bufPtr len
  have hmoves : d.moves pid fd bufPtr len w ↔ Moved (d.chunkRound pid bufPtr len) noneLost
      (List.replicate len ()) (w.handleOut pid fd, handle) := by
    constructor
    · rintro ⟨handle', hopen₁, hmoved⟩
      obtain rfl : handle = handle' := by simpa using hopen.symm.trans hopen₁
      exact hmoved
    · exact fun hmoved => ⟨handle, hopen, hmoved⟩
  rw [hmoves]
  refine resultMatches_iff (d.chunks_moving pid bufPtr len _) hoffset hrun hcall ?_ ?_
  · rw [World.positionOf, hopen']
    rfl
  · intro n hn
    subst hn
    exact (Transfer.chunks_within hoffset hrun).trans hlen

end Calls

/-! ### A call on a table of buffers -/

section Vector

variable {d : Transfer} {pid fd iovPtr : Nat} {handle : FileHandle} {w w' : World}

/-- The entries that are read: none when there are too many. -/
def entries (iovCnt : Nat) : List Nat := if 1024 < iovCnt then [] else List.range iovCnt

/-- The entry `i` can be read, and the call on its buffer moves a chunk before it fails. -/
def Transfer.entryLost (d : Transfer) (pid fd iovPtr i : Nat) (_ : Nat) (w : World) : Prop :=
  ∃ iovAddr raw w₁, checkedAdd iovPtr (i * 16) = some iovAddr ∧
    (copyFromUser pid iovAddr 16).run w = (.ok raw, w₁) ∧
    d.moves pid fd (leNat (raw.take 8)) (leNat (raw.drop 8)) w₁

/-- The position, of a descriptor that is open. -/
def World.positionIn (pid fd : Nat) (w : World) : Nat := (w.positionOf pid fd).getD 0

/-- The descriptor is open, with a position that is a word. -/
def World.HasPosition (pid fd : Nat) (w : World) : Prop :=
  ∃ handle, w.openAt pid fd = some handle ∧ handle.offset ≤ usizeMax

/-- The position of a descriptor is the offset of its handle. -/
theorem World.positionIn_eq (h : w.openAt pid fd = some handle) :
    w.positionIn pid fd = handle.offset := by
  rw [World.positionIn, World.positionOf, h]
  rfl

/-- A copy from user memory leaves the descriptors alone. -/
theorem copyFromUser_openAt (q a n : Nat) (w : World) :
    ((copyFromUser q a n).run w).2.openAt pid fd = w.openAt pid fd := by
  have hfiles : ((copyFromUser q a n).run w).2.filesOf pid = w.filesOf pid :=
    congrFun (congrArg FileView.files (copyFromUser_frames (V := World.fileView) q a n w)) pid
  rw [World.openAt, hfiles, World.openAt]

/-- A call on an open descriptor that returns has moved the position ahead. -/
theorem Transfer.call_ok {bufPtr len n : Nat} (hopen : w.HasPosition pid fd)
    (hcall : (d.call pid fd bufPtr len).run w = (.ok n, w')) :
    w'.HasPosition pid fd ∧ w.positionIn pid fd ≤ w'.positionIn pid fd ∧ n ≤ len ∧
      (n < isizeLim → w'.positionIn pid fd = min (w.positionIn pid fd + n) usizeMax) := by
  obtain ⟨handle, hopen, hoffset⟩ := hopen
  obtain ⟨r, s', w₁, hrun, hcall', hopen'⟩ := d.call_run hopen bufPtr len
  obtain ⟨rfl, rfl⟩ : .ok n = r ∧ w' = w₁ := by simpa using hcall.symm.trans hcall'
  obtain ⟨hI, hahead, -, hpos⟩ :=
    (d.chunks_moving pid bufPtr len (List.replicate len ())).value hoffset hrun
  rw [World.positionIn_eq hopen, World.positionIn_eq hopen']
  refine ⟨⟨s'.2, hopen', hI⟩, hahead, Transfer.chunks_within hoffset hrun, ?_⟩
  intro hlt
  exact (hpos hlt).2

/-- A call on an open descriptor that fails before it has moved a chunk leaves the position. -/
theorem Transfer.call_error {bufPtr len : Nat} {e : Err} (hopen : w.HasPosition pid fd)
    (hcall : (d.call pid fd bufPtr len).run w = (.error e, w'))
    (hmoves : ¬ d.moves pid fd bufPtr len w) : w'.positionIn pid fd = w.positionIn pid fd := by
  obtain ⟨handle, hopen, hoffset⟩ := hopen
  obtain ⟨r, s', w₁, hrun, hcall', hopen'⟩ := d.call_run hopen bufPtr len
  obtain ⟨rfl, rfl⟩ : .error e = r ∧ w' = w₁ := by simpa using hcall.symm.trans hcall'
  rw [World.positionIn_eq hopen, World.positionIn_eq hopen']
  exact (d.chunks_moving pid bufPtr len (List.replicate len ())).error hoffset (by decide) hrun
    fun hmoved => hmoves ⟨handle, hopen, hmoved⟩

/-- The part of a round that follows the read of its entry. -/
def Transfer.entryBody (d : Transfer) (pid fd total : Nat) (raw : List UInt8) : M (Nat × Bool) :=
  if leNat (raw.drop 8) = 0 then pure (total, true)
  else do
    let n ← d.call pid fd (leNat (raw.take 8)) (leNat (raw.drop 8))
    if asIsize n < 0 then pure (n, false)
    else pure (satAdd total n, !decide (n < leNat (raw.drop 8)))

/-- A round fails at the read of its entry, or it goes on with the entry. -/
theorem Transfer.entryRound_cases (d : Transfer) (pid fd iovPtr i total : Nat) (w : World) :
    (∃ e w₁, (d.entryRound pid fd iovPtr i total).run w = (.error e, w₁) ∧
      w₁.openAt pid fd = w.openAt pid fd) ∨
    ∃ iovAddr raw w₁, checkedAdd iovPtr (i * 16) = some iovAddr ∧
      (copyFromUser pid iovAddr 16).run w = (.ok raw, w₁) ∧ raw.length ≤ 16 ∧
      w₁.openAt pid fd = w.openAt pid fd ∧
      (d.entryRound pid fd iovPtr i total).run w = (d.entryBody pid fd total raw).run w₁ := by
  unfold Transfer.entryRound
  cases hadd : checkedAdd iovPtr (i * 16) with
  | none => exact .inl ⟨.invalidAddress, w, rfl, rfl⟩
  | some iovAddr =>
    rw [getSome_bind]
    have hopen := @copyFromUser_openAt pid fd pid iovAddr 16 w
    rcases hraw : (copyFromUser pid iovAddr 16).run w with ⟨e | raw, w₁⟩
    · rw [hraw] at hopen
      exact .inl ⟨e, w₁, run_bind_error hraw, hopen⟩
    · rw [hraw] at hopen
      have hlength := (copyFromUser_length pid iovAddr 16 w trivial).1 raw (congrArg Prod.fst hraw)
      exact .inr ⟨iovAddr, raw, w₁, rfl, hraw, hlength, hopen, run_bind_ok hraw⟩

/-- A round leaves the descriptor open, whether it fails or not. -/
theorem Transfer.entryRound_opens (d : Transfer) (pid fd iovPtr i total : Nat) :
    Keeps (fun w => ∃ handle, w.openAt pid fd = some handle)
      (d.entryRound pid fd iovPtr i total) := by
  unfold Transfer.entryRound
  refine Keeps.bind (Keeps.getSome _ _) fun iovAddr => Keeps.bind ?_ fun raw =>
    Keeps.ite (Keeps.pure _) (Keeps.bind ?_ fun n => Keeps.ite (Keeps.pure _) (Keeps.pure _))
  · intro w h
    rwa [copyFromUser_openAt]
  · intro w h
    obtain ⟨handle, hopen⟩ := h
    obtain ⟨r, s', w', -, hcall, hopen'⟩ :=
      d.call_run hopen (leNat (raw.take 8)) (leNat (raw.drop 8))
    rw [hcall]
    exact ⟨s'.2, hopen'⟩

/-- A position fits in the word. -/
theorem World.HasPosition.le (h : w.HasPosition pid fd) : w.positionIn pid fd ≤ usizeMax := by
  obtain ⟨handle, hopen, hoffset⟩ := h
  rw [World.positionIn_eq hopen]
  exact hoffset

/-- A descriptor that is as before has its position as before. -/
theorem World.HasPosition.congr (h : w.HasPosition pid fd)
    (hopen : w'.openAt pid fd = w.openAt pid fd) :
    w'.HasPosition pid fd ∧ w'.positionIn pid fd = w.positionIn pid fd := by
  obtain ⟨handle, hget, hoffset⟩ := h
  have hget' := hopen.trans hget
  exact ⟨⟨handle, hget', hoffset⟩, by rw [World.positionIn_eq hget', World.positionIn_eq hget]⟩

/-- The length in an entry is a word. -/
theorem iovLen_le {raw : List UInt8} (h : raw.length ≤ 16) : leNat (raw.drop 8) ≤ usizeMax := by
  have hlt := leNat_lt (raw.drop 8)
  have hpow : 256 ^ (raw.drop 8).length ≤ 256 ^ 8 := by
    refine Nat.pow_le_pow_right (by decide) ?_
    rw [List.length_drop]
    omega
  exact Nat.le_pred_of_lt (hlt.trans_le hpow)

/-- A round of `sys_rw_vector` that does not fail moves the position by what it adds to the
total. -/
theorem Transfer.entryRound_ok {i total t : Nat} {more : Bool} (hw : w.HasPosition pid fd)
    (hrun : (d.entryRound pid fd iovPtr i total).run w = (.ok (t, more), w')) :
    w'.HasPosition pid fd ∧ w.positionIn pid fd ≤ w'.positionIn pid fd ∧
      (total ≤ usizeMax → t ≤ usizeMax) ∧ (isizeLim ≤ total → isizeLim ≤ t) ∧
      (t < isizeLim → total ≤ t ∧
        w'.positionIn pid fd = min (w.positionIn pid fd + (t - total)) usizeMax) := by
  rcases d.entryRound_cases pid fd iovPtr i total w with ⟨e, w₁, hfail, -⟩ |
    ⟨iovAddr, raw, w₁, -, -, hlength, hopen, hbody⟩
  · rw [hfail] at hrun
    cases hrun
  obtain ⟨hw₁, hpos₁⟩ := hw.congr hopen
  rw [hbody, Transfer.entryBody] at hrun
  rw [← hpos₁]
  -- an empty entry adds nothing to the sum
  by_cases hzero : leNat (raw.drop 8) = 0
  · rw [if_pos hzero] at hrun
    cases hrun
    refine ⟨hw₁, Nat.le_refl _, id, id, fun _ => ⟨Nat.le_refl _, ?_⟩⟩
    rw [Nat.sub_self, Nat.add_zero, Nat.min_eq_left hw₁.le]
  rw [if_neg hzero] at hrun
  rcases hcall : (d.call pid fd (leNat (raw.take 8)) (leNat (raw.drop 8))).run w₁ with ⟨e | n, w₂⟩
  · rw [run_bind_error hcall] at hrun
    cases hrun
  obtain ⟨hw₂, hahead, hle, hpos⟩ := Transfer.call_ok hw₁ hcall
  have hmax := iovLen_le hlength
  rw [run_bind_ok hcall] at hrun
  -- a chunk that fails comes back as a negative value, and its sum is not used
  by_cases hneg : asIsize n < 0
  · rw [if_pos hneg] at hrun
    cases hrun
    have hlim : isizeLim ≤ t := by
      by_contra hlt
      rw [asIsize_of_lt (Nat.lt_of_not_le hlt)] at hneg
      omega
    refine ⟨hw₂, hahead, fun _ => hle.trans hmax, fun _ => hlim, ?_⟩
    intro hlt
    exact absurd hlim (Nat.not_le.mpr hlt)
  · rw [if_neg hneg] at hrun
    cases hrun
    refine ⟨hw₂, hahead, fun _ => Nat.min_le_right _ _, ?_, ?_⟩
    -- the saturated sum stays past the range of `isize`
    · intro hlim
      unfold satAdd isizeLim usizeMax usizeMod at *
      omega
    · intro hlt
      have hsum : satAdd total n = total + n ∧ n < isizeLim := by
        unfold satAdd isizeLim usizeMax usizeMod at *
        omega
      rw [hsum.1, Nat.add_sub_cancel_left]
      exact ⟨Nat.le_add_right _ _, hpos hsum.2⟩

/-- The rounds of `sys_rw_vector` move the position of the descriptor. -/
theorem Transfer.entries_moving (d : Transfer) (pid fd iovPtr : Nat) (l : List Nat) :
    Moving (d.entryRound pid fd iovPtr) usizeMax isizeLim (World.positionIn pid fd)
      (World.HasPosition pid fd) (d.entryLost pid fd iovPtr) l where
  below w h := h.le
  keeps i _ total w t more w' hw hrun := by
    obtain ⟨hw', hahead, -, hrest⟩ := Transfer.entryRound_ok hw hrun
    exact ⟨hw', hahead, hrest⟩
  fails i _ total w e w' hw hrun hlost := by
    rcases d.entryRound_cases pid fd iovPtr i total w with ⟨e', w₁, hfail, hopen⟩ |
      ⟨iovAddr, raw, w₁, hadd, hraw, -, hopen, hbody⟩
    · obtain ⟨-, rfl⟩ : e = e' ∧ w' = w₁ := by simpa using hrun.symm.trans hfail
      exact (hw.congr hopen).2
    obtain ⟨hw₁, hpos₁⟩ := hw.congr hopen
    rw [hbody, Transfer.entryBody] at hrun
    by_cases hzero : leNat (raw.drop 8) = 0
    · rw [if_pos hzero] at hrun
      cases hrun
    rw [if_neg hzero] at hrun
    rcases hcall : (d.call pid fd (leNat (raw.take 8))
      (leNat (raw.drop 8))).run w₁ with ⟨e' | n, w₂⟩
    · rw [run_bind_error hcall] at hrun
      cases hrun
      exact (Transfer.call_error hw₁ hcall fun hmoves =>
        hlost ⟨iovAddr, raw, w₁, hadd, hraw, hmoves⟩).trans hpos₁
    · rw [run_bind_ok hcall] at hrun
      -- an entry that fails is an error of the call, so the round did not succeed
      by_cases hneg : asIsize n < 0
      · rw [if_pos hneg] at hrun
        cases hrun
      · rw [if_neg hneg] at hrun
        cases hrun

/-- A call on a table of at most 1024 entries is the loop over its rounds. -/
theorem Transfer.vector_eq (d : Transfer) {iovCnt : Nat} (h : iovCnt ≤ 1024) :
    d.vector pid fd iovPtr iovCnt =
      runRounds (d.entryRound pid fd iovPtr) (List.range iovCnt) 0 := by
  have hloop : d.vector pid fd iovPtr iovCnt = sysRwVector pid iovPtr iovCnt (d.call pid fd) := by
    cases d <;> rfl
  rw [hloop, sysRwVector]
  by_cases hzero : iovCnt = 0
  · rw [if_pos hzero, hzero]
    rfl
  · rw [if_neg hzero, if_neg (Nat.not_lt.mpr h), rwVectorLoop_eq_rounds]

/-- Something is moved before the entry that runs last, or by a chunk of it before the last one. -/
def Transfer.movesEntries (d : Transfer) (pid fd iovPtr iovCnt : Nat) (w : World) : Prop :=
  Moved (d.entryRound pid fd iovPtr) (d.entryLost pid fd iovPtr) (entries iovCnt) w

/-- A call on a table matches its result when its entries are smooth, and only then. -/
theorem Transfer.vector_matches_iff (d : Transfer) (hopen : w.openAt pid fd = some handle)
    (hoffset : handle.offset ≤ usizeMax) (iovPtr iovCnt : Nat) :
    ResultMatches (d.vector pid fd iovPtr iovCnt) pid fd handle.offset
        (d.movesEntries pid fd iovPtr iovCnt w) w ↔
      Smooth (d.entryRound pid fd iovPtr) usizeMax isizeLim (World.positionIn pid fd)
        (d.entryLost pid fd iovPtr) (entries iovCnt) 0 w := by
  have hw : w.HasPosition pid fd := ⟨handle, hopen, hoffset⟩
  -- more entries than the call allows are refused before any of them
  by_cases hmany : 1024 < iovCnt
  · have hnil : entries iovCnt = [] := if_pos hmany
    have hcall : (d.vector pid fd iovPtr iovCnt).run w = (.error .invalidArgs, w) := by
      have hne : iovCnt ≠ 0 := by omega
      cases d <;> exact congrArg (Cmd.run · w) ((if_neg hne).trans (if_pos hmany))
    rw [Transfer.movesEntries, hnil]
    refine iff_of_true ⟨?_, ?_⟩ Smooth.nil
    · intro n w' hn
      rw [hcall] at hn
      cases hn
    · intro e w' he
      obtain ⟨-, rfl⟩ : Err.invalidArgs = e ∧ w = w' := by simpa using hcall.symm.trans he
      refine ⟨?_, not_moved_nil⟩
      rw [World.positionOf, hopen]
      rfl
  have hrange : entries iovCnt = List.range iovCnt := if_neg hmany
  rw [Transfer.movesEntries, hrange, ← World.positionIn_eq hopen]
  have heq := @Transfer.vector_eq pid fd iovPtr d iovCnt (Nat.le_of_not_lt hmany)
  -- the descriptor stays open through every entry
  obtain ⟨handle', hopen'⟩ : ∃ handle', ((d.vector pid fd iovPtr iovCnt).run w).2.openAt pid fd =
      some handle' := by
    rw [heq]
    exact runRounds_keeps (fun i total => d.entryRound_opens pid fd iovPtr i total) _ _ w
      ⟨handle, hopen⟩
  refine resultMatches_iff (d.entries_moving pid fd iovPtr _) hw
    (congrArg (Cmd.run · w) heq.symm) rfl ?_ ?_
  · rw [World.positionOf, World.positionIn_eq hopen', hopen']
    rfl
  · intro n hn
    rw [heq] at hn
    refine (runRounds_value (P := fun total w => total ≤ usizeMax ∧ w.HasPosition pid fd)
      (fun i _ total w t more w' h hround => ?_) ⟨Nat.zero_le _, hw⟩ (Prod.ext hn rfl)).1
    obtain ⟨hw', -, hmax, -⟩ := Transfer.entryRound_ok h.2 hround
    exact ⟨hmax h.1, hw'⟩

end Vector

/-- The result of a read or a write, on a buffer or on a table of buffers, is what the position went
ahead by, and an error means that nothing was moved, exactly when no chunk and no entry fails once
something was moved, and neither the total nor the position passes its bound. -/
theorem transfer_matches_iff (d : Transfer) {w : World} {pid fd : Nat} {handle : FileHandle}
    (hopen : w.openAt pid fd = some handle) (hoffset : handle.offset ≤ usizeMax) :
    (∀ bufPtr len, len ≤ usizeMax →
      (ResultMatches (d.call pid fd bufPtr len) pid fd handle.offset
          (d.moves pid fd bufPtr len w) w ↔
        Smooth (d.chunkRound pid bufPtr len) usizeMax isizeLim (fun s => s.2.offset) noneLost
          (List.replicate len ()) 0 (w.handleOut pid fd, handle))) ∧
    ∀ iovPtr iovCnt,
      (ResultMatches (d.vector pid fd iovPtr iovCnt) pid fd handle.offset
          (d.movesEntries pid fd iovPtr iovCnt w) w ↔
        Smooth (d.entryRound pid fd iovPtr) usizeMax isizeLim (World.positionIn pid fd)
          (d.entryLost pid fd iovPtr) (entries iovCnt) 0 w) :=
  ⟨fun _ _ hlen => d.call_matches_iff hopen hoffset hlen,
    fun iovPtr iovCnt => d.vector_matches_iff hopen hoffset iovPtr iovCnt⟩

/-- Services that accept more than a page. -/
def samplePages : World := sampleBoot.withEnv fun n => ⟨none, n + 5000, fun _ => 0⟩

/-- A round of a read of `init`, which wants two chunks. -/
def sampleRound : Round Unit (World × FileHandle) Err :=
  Transfer.read.chunkRound 1 0x3fffe000 8192

/-- What `init` has before the first chunk. -/
def sampleFirst : World × FileHandle := (samplePages.handleOut 1 0, ⟨1003, 0, none⟩)

/-- What it has after the first chunk. -/
def sampleSecond : World × FileHandle := ((sampleRound () 0).run sampleFirst).2

/-- What it has after the second chunk. -/
def sampleThird : World × FileHandle := ((sampleRound () 4096).run sampleSecond).2

/-- A read of `init` in two chunks. -/
theorem transfer_matches_iff_init :
    ((doRead 1 0 0x3fffe000 8192).run samplePages).1 = .ok 8192 ∧
    ResultMatches (doRead 1 0 0x3fffe000 8192) 1 0 0
      (Transfer.read.moves 1 0 0x3fffe000 8192 samplePages) samplePages := by
  have hopen : samplePages.openAt 1 0 = some ⟨1003, 0, none⟩ := by decide +kernel
  obtain ⟨hfirst, hpos₂, hsecond, hpos₃, hthird⟩ :
      ((sampleRound () 0).run sampleFirst).1 = .ok (4096, true) ∧ sampleSecond.2.offset = 4096 ∧
      ((sampleRound () 4096).run sampleSecond).1 = .ok (8192, true) ∧ sampleThird.2.offset = 8192 ∧
      ((sampleRound () 8192).run sampleThird).1 = .ok (8192, false) := by decide +kernel
  -- two full chunks and a third round that ends the loop
  have hchunks : List.replicate 8192 () = () :: () :: () :: List.replicate 8189 () := rfl
  refine ⟨by decide +kernel, ((transfer_matches_iff .read hopen (by decide)).1 0x3fffe000 8192
    (by decide)).mpr ?_⟩
  have hrun₁ : (sampleRound () 0).run sampleFirst = (.ok (4096, true), sampleSecond) := by
    rw [sampleSecond, ← hfirst]
  have hrun₂ : (sampleRound () 4096).run sampleSecond = (.ok (8192, true), sampleThird) := by
    rw [sampleThird, ← hsecond]
  show Smooth sampleRound _ _ _ _ _ 0 sampleFirst
  rw [hchunks]
  refine Smooth.cons hrun₁ (by decide) (by decide) (Smooth.cons hrun₂ (by decide) ?_ ?_)
  · rw [hpos₂]
    decide
  · have hrun₃ : (sampleRound () 8192).run sampleThird
        = (.ok (8192, false), ((sampleRound () 8192).run sampleThird).2) := by rw [← hthird]
    refine Smooth.single hrun₃ (by decide) ?_
    rw [hpos₃]
    decide

/-- A read into a page and the address after it fails at its second chunk. The first one was moved,
and the position went ahead. -/
theorem failed_read_moves_position :
    ((doRead 1 0 0x3ffff000 8192).run samplePages).1 = .error .invalidAddress ∧
    samplePages.positionOf 1 0 = some 0 ∧
    (((doRead 1 0 0x3ffff000 8192).run samplePages).2).positionOf 1 0 = some 4096 ∧
    ¬ ResultMatches (doRead 1 0 0x3ffff000 8192) 1 0 0
      (Transfer.read.moves 1 0 0x3ffff000 8192 samplePages) samplePages := by
  have herror : ((doRead 1 0 0x3ffff000 8192).run samplePages).1 = .error .invalidAddress := by
    decide +kernel
  have hpos : (((doRead 1 0 0x3ffff000 8192).run samplePages).2).positionOf 1 0 = some 4096 := by
    decide +kernel
  refine ⟨herror, by decide +kernel, hpos, ?_⟩
  intro h
  have hsame := (h.error _ _ (Prod.ext herror rfl)).1
  rw [hpos] at hsame
  cases hsame

end Ape
