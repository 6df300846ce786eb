import Ape.Proofs.Views

/-!
# `Ape.Proofs.Control`: invariants through user copies, descriptors and deferred replies

The commands of the control side (descriptors, signals, child events, waiting replies) reach
the memory of a process only through the two user copies. An invariant that does not see what
these commands change, and that the user copies keep, is kept by all of them. Signals and whole
requests are in `Ape.Proofs.Calls`.
-/

set_option autoImplicit false

namespace Ape

open Ape.Lib Cmd

/-- The user copies keep the invariant. -/
class UserKeeps (I : World → Prop) : Prop where
  copyFromUser : ∀ pid a n, Keeps I (copyFromUser pid a n)
  copyToUser : ∀ pid a bytes, Keeps I (copyToUser pid a bytes)
  readString : ∀ pid a n, Keeps I (withUserSession (strncpyFromUser pid a n))

/-- The allocation of a frame that no process uses keeps the invariant. -/
class AllocKeeps (I : World → Prop) : Prop where
  alloc : ∀ pages, Keeps I (allocPageFrameNoCleanup pages)

instance (priority := low) AllocKeeps.of_blind {I : World → Prop} [BlindFrames I] :
    AllocKeeps I where
  alloc _ := (allocPageFrameNoCleanup_frames _).keepsProp

/-- The invariant sees no bytes, and the growth of a stack keeps it. -/
class GrowKeeps (I : World → Prop) : Prop extends BlindBytes I where
  grow : ∀ pid a, Keeps I (tryGrowStackForUserAddr pid a)

/-- An invariant that sees no memory does not see a stack grow. -/
instance (priority := low) GrowKeeps.of_blind {I : World → Prop} [BlindMemory I] : GrowKeeps I where
  grow _ _ := (tryGrowStackForUserAddr_frames _ _).keepsProp

/-- The growth of a stack keeps what the growth by one page keeps. -/
theorem tryGrow_keeps_of {I : World → Prop} {pid : Nat}
    (h : ∀ vaddr, Keeps I (growStackPage pid vaddr)) (userAddr : Nat) :
    Keeps I (tryGrowStackForUserAddr pid userAddr) := by
  unfold tryGrowStackForUserAddr
  refine Keeps.bind (getProcess_frames _).keepsProp fun task => ?_
  refine Keeps.ite (by simp) (Keeps.ite (by simp) (Keeps.ite (by simp) ?_))
  exact Keeps.bind (Keeps.forEach fun _ => h _) fun _ => by simp

section Sessions

variable {I : World → Prop} {pid : Nat} (h : ∀ a, Keeps I (tryGrowStackForUserAddr pid a))

include h

/-- A lookup keeps what the growth of the stack of its process keeps. -/
theorem lookupMap_keeps (userAddr : Nat) (required : Perms) :
    Keeps I (lookupMap pid userAddr required) := by
  have hgrow : Keeps I (lookupOrGrow pid userAddr) := by
    unfold lookupOrGrow
    refine Keeps.bind (getProcess_frames _).keepsProp fun task => ?_
    split
    · exact Keeps.pure _
    · refine Keeps.bind (Keeps.attempt (h userAddr)) fun grown => ?_
      split <;> simp
  unfold lookupMap
  exact Keeps.bind hgrow fun found => Keeps.bind (by simp) fun m => by simp

variable [BlindBytes I]

omit h in
/-- A window for an entry is made by calls and scratch mappings. -/
theorem acquire_keeps (m : MemoryMap) (perms : Perms) :
    Keeps (fun s : Session => I s.1) (acquire m perms) := (acquire_frames m perms).keepsProp

omit h in
/-- A session keeps what its copies keep, and gives its windows up at the end. -/
theorem withUserSession_keeps {α : Type} {f : S α} (hf : Keeps (fun s : Session => I s.1) f) :
    Keeps I (withUserSession f) := by
  unfold withUserSession
  exact Keeps.bind (Keeps.runWith hf) fun r =>
    Keeps.bind (Keeps.runWith releaseAll_frames.keepsProp) fun c => by simp

/-- A copy from a process inside a session grows stacks and maps windows. -/
theorem sessionCopyFromUser_keeps (userSrc n : Nat) :
    Keeps (fun s : Session => I s.1) (sessionCopyFromUser pid userSrc n) := by
  have hloop : ∀ fuel cursor n,
      Keeps (fun s : Session => I s.1) (copyFromUserLoop pid fuel cursor n) := by
    intro fuel
    induction fuel with
    | zero => intro cursor n; exact Keeps.pure _
    | succ fuel ih =>
      intro cursor n
      unfold copyFromUserLoop
      refine Keeps.ite (by simp) (Keeps.bind (Keeps.inFst (lookupMap_keeps h _ _)) fun m => ?_)
      refine Keeps.ite (by simp) (Keeps.bind (acquire_keeps _ _) fun scratch => ?_)
      exact Keeps.bind (by simp) fun bytes => Keeps.bind (ih _ _) fun rest => by simp
  exact Keeps.ite (by simp) (Keeps.ite (by simp) (hloop _ _ _))

/-- A copy to a process inside a session grows stacks, maps windows and writes bytes. -/
theorem sessionCopyToUser_keeps (userDst : Nat) (src : List UInt8) :
    Keeps (fun s : Session => I s.1) (sessionCopyToUser pid userDst src) := by
  have hloop : ∀ fuel cursor src,
      Keeps (fun s : Session => I s.1) (copyToUserLoop pid fuel cursor src) := by
    intro fuel
    induction fuel with
    | zero => intro cursor src; exact Keeps.pure _
    | succ fuel ih =>
      intro cursor src
      unfold copyToUserLoop
      refine Keeps.ite (by simp) (Keeps.bind (Keeps.inFst (lookupMap_keeps h _ _)) fun m => ?_)
      refine Keeps.ite (by simp) (Keeps.bind (acquire_keeps _ _) fun scratch => ?_)
      exact Keeps.bind (Keeps.inFst (writeScratch_frames _ _).keepsProp) fun _ => ih _ _
  exact Keeps.ite (by simp) (Keeps.ite (by simp) (hloop _ _ _))

/-- A string is read in copies of one byte. -/
theorem strncpyFromUser_keeps (userSrc maxLen : Nat) :
    Keeps (fun s : Session => I s.1) (strncpyFromUser pid userSrc maxLen) := by
  have hloop : ∀ fuel cursor out,
      Keeps (fun s : Session => I s.1) (strncpyLoop pid maxLen fuel cursor out) := by
    intro fuel
    induction fuel with
    | zero => intro cursor out; exact Keeps.throw _
    | succ fuel ih =>
      intro cursor out
      unfold strncpyLoop
      refine Keeps.ite (Keeps.bind (Keeps.inFst (lookupMap_keeps h _ _)) fun m => ?_) (by simp)
      refine Keeps.ite (by simp) (Keeps.bind (acquire_keeps _ _) fun scratch => ?_)
      exact Keeps.bind (by simp) fun bytes => Keeps.ite (by simp) (ih _ _)
  exact Keeps.ite (by simp) (Keeps.ite (by simp) (Keeps.bind (hloop _ _ _) fun _ => by simp))

/-- An array of strings is read in copies of its pointers and of its strings. -/
theorem readUserStringArray_keeps (arrayPtr maxCount maxStrLen : Nat) :
    Keeps (fun s : Session => I s.1) (readUserStringArray pid arrayPtr maxCount maxStrLen) := by
  have hloop : ∀ l out,
      Keeps (fun s : Session => I s.1) (stringArrayLoop pid arrayPtr maxStrLen l out) := by
    intro l
    induction l with
    | nil => intro out; exact Keeps.throw _
    | cons i rest ih =>
      intro out
      unfold stringArrayLoop
      refine Keeps.bind (by simp) fun ptr =>
        Keeps.bind (sessionCopyFromUser_keeps h _ _) fun raw => ?_
      exact Keeps.ite (by simp) (Keeps.bind (strncpyFromUser_keeps h _ _) fun s => ih _)
  exact Keeps.ite (by simp) (hloop _ _)

/-- The arguments of `execve` are read in one session. -/
theorem parseExecveUserInput_keeps (filenamePtr argvPtr envpPtr : Nat) :
    Keeps I (parseExecveUserInput pid filenamePtr argvPtr envpPtr) :=
  withUserSession_keeps <| Keeps.bind (strncpyFromUser_keeps h _ _) fun _ =>
    Keeps.bind (readUserStringArray_keeps h _ _ _) fun _ =>
      Keeps.bind (readUserStringArray_keeps h _ _ _) fun _ => Keeps.pure _

end Sessions

/-- The user copies keep what the growth of a stack keeps. -/
instance UserKeeps.of_grow {I : World → Prop} [h : GrowKeeps I] : UserKeeps I where
  copyFromUser pid _ _ := withUserSession_keeps (sessionCopyFromUser_keeps (h.grow pid) _ _)
  copyToUser pid _ _ := withUserSession_keeps (sessionCopyToUser_keeps (h.grow pid) _ _)
  readString pid _ _ := withUserSession_keeps (strncpyFromUser_keeps (h.grow pid) _ _)

/-! ### The value of a view as an invariant -/

section Values

variable {γ : Type} {V : World → γ} (v : γ)

instance [h : BlindCaps V] : BlindCaps fun w => V w = v := h.comp (· = v)

instance [h : BlindSlots V] : BlindSlots fun w => V w = v := h.comp (· = v)

instance {pid : Nat} [h : BlindLedger V pid] : BlindLedger (fun w => V w = v) pid :=
  ⟨fun w l => congrArg (· = v) (h.own w l)⟩

instance [h : BlindPaths V] : BlindPaths fun w => V w = v := h.comp (· = v)

instance [h : BlindTables V] : BlindTables fun w => V w = v := h.comp (· = v)

instance [h : BlindScratch V] : BlindScratch fun w => V w = v := h.comp (· = v)

instance [h : BlindBytes V] : BlindBytes fun w => V w = v := h.comp (· = v)

instance [h : BlindFrames V] : BlindFrames fun w => V w = v := h.comp (· = v)

instance [h : BlindMemory V] : BlindMemory fun w => V w = v := h.comp (· = v)

instance [h : BlindTrace V] : BlindTrace fun w => V w = v := h.comp (· = v)

instance [h : BlindSignals V] : BlindSignals fun w => V w = v := h.comp (· = v)

instance [h : BlindMarks V] : BlindMarks fun w => V w = v := h.comp (· = v)

instance [h : BlindEndpoints V] : BlindEndpoints fun w => V w = v := h.comp (· = v)

instance [h : BlindFiles V] : BlindFiles fun w => V w = v := h.comp (· = v)

instance [h : BlindRecords V] : BlindRecords fun w => V w = v := h.comp (· = v)

instance [h : BlindHosts V] : BlindHosts fun w => V w = v := h.comp (· = v)

instance [h : BlindRest V] : BlindRest fun w => V w = v := h.comp (· = v)

instance [h : BlindStops V] : BlindStops fun w => V w = v := h.comp (· = v)

instance [h : BlindJobs V] : BlindJobs fun w => V w = v := h.comp (· = v)

instance [h : BlindActions V] : BlindActions fun w => V w = v := h.comp (· = v)

instance [h : BlindWaits V] : BlindWaits fun w => V w = v := h.comp (· = v)

instance [h : BlindSleeps V] : BlindSleeps fun w => V w = v := h.comp (· = v)

instance [h : BlindCaller V] : BlindCaller fun w => V w = v := h.comp (· = v)

end Values

variable {I : World → Prop}

/-- A change of the state that the invariant does not see. -/
theorem keeps_modify {f : World → World} (h : ∀ w, I (f w) = I w) :
    Keeps I (Cmd.modify f : M Unit) :=
  fun w hw => (h w).mpr hw

/-- A call is seen by nothing that is blind to calls. -/
@[simp] theorem ext_keeps [BlindCaps I] : Keeps I ext := ext_frames.keepsProp

/-- The event is about the pending set of a process. -/
def Event.onPending : Event → Bool
  | .queued .. | .dequeued .. | .discarded .. => true
  | _ => false

/-- The end of a process that the event records, with its exit code. -/
def Event.ending : Event → Option (Nat × Nat)
  | .terminated pid code => some (pid, code)
  | _ => none

/-- The process whose thread the event stops. -/
def Event.suspension : Event → Option Nat
  | .suspended pid => some pid
  | _ => none

/-- The file pages that the event is about. -/
def Event.fill : Event → Option FileFill
  | .filled f => some f
  | _ => none

/-- An event that is not about a pending set, the end of a process, the stop of a thread or the
pages of a file mapping. -/
class Event.Quiet (e : Event) : Prop where
  quiet : e.onPending = false
  lasts : e.ending = none
  awake : e.suspension = none
  unfilled : e.fill = none

instance (pid signum : Nat) : Event.Quiet (.returned pid signum) := ⟨rfl, rfl, rfl, rfl⟩

instance (pid handler signum : Nat) : Event.Quiet (.upcall pid handler signum) :=
  ⟨rfl, rfl, rfl, rfl⟩

instance (pid : Nat) : Event.Quiet (.resumed pid) := ⟨rfl, rfl, rfl, rfl⟩

instance (slot : Nat) (value : Int) : Event.Quiet (.replied slot value) := ⟨rfl, rfl, rfl, rfl⟩

instance (slot offset count : Nat) : Event.Quiet (.fileRead slot offset count) :=
  ⟨rfl, rfl, rfl, rfl⟩

instance (slot offset count : Nat) : Event.Quiet (.fileWritten slot offset count) :=
  ⟨rfl, rfl, rfl, rfl⟩

instance (slot : Nat) : Event.Quiet (.fileClosed slot) := ⟨rfl, rfl, rfl, rfl⟩

/-- The quiet events keep the invariant. -/
class TraceKeeps (I : World → Prop) : Prop where
  emit : ∀ (e : Event) [e.Quiet], Keeps I (emit e)

instance (priority := low) TraceKeeps.of_blind [BlindTrace I] : TraceKeeps I where
  emit e := (emit_frames e).keepsProp

/-- An event that is quiet for the invariant. -/
@[simp] theorem emit_keeps [h : TraceKeeps I] (e : Event) [e.Quiet] : Keeps I (emit e) := h.emit e

/-- The record of the end of a process keeps the invariant. -/
class EndKeeps (I : World → Prop) : Prop where
  ended : ∀ pid code, Keeps I (emit (.terminated pid code))

instance (priority := low) EndKeeps.of_blind [BlindTrace I] : EndKeeps I where
  ended _ _ := (emit_frames _).keepsProp

/-- The event of the end of a process. -/
@[simp] theorem emit_terminated_keeps [h : EndKeeps I] (pid code : Nat) :
    Keeps I (emit (.terminated pid code)) := h.ended pid code

/-- The record of the stop of a thread keeps the invariant. -/
class SuspendKeeps (I : World → Prop) : Prop where
  suspended : ∀ pid, Keeps I (emit (.suspended pid))

instance (priority := low) SuspendKeeps.of_blind [BlindTrace I] : SuspendKeeps I where
  suspended _ := (emit_frames _).keepsProp

/-- The event of a suspension. -/
@[simp] theorem emit_suspended_keeps [h : SuspendKeeps I] (pid : Nat) :
    Keeps I (emit (.suspended pid)) := h.suspended pid

/-- The record of a queued signal keeps the invariant. -/
class QueuedKeeps (I : World → Prop) : Prop where
  queued : ∀ pid signum, Keeps I (emit (.queued pid signum))

instance (priority := low) QueuedKeeps.of_blind [BlindTrace I] : QueuedKeeps I where
  queued _ _ := (emit_frames _).keepsProp

/-- The record of a filled page keeps the invariant. -/
class FillKeeps (I : World → Prop) : Prop where
  filled : ∀ f, Keeps I (emit (.filled f))

instance (priority := low) FillKeeps.of_blind [BlindTrace I] : FillKeeps I where
  filled _ := (emit_frames _).keepsProp

/-- The event of a page that is filled from a file. -/
@[simp] theorem emit_filled_keeps [h : FillKeeps I] (f : FileFill) : Keeps I (emit (.filled f)) :=
  h.filled f

/-- The invariant does not see the bookkeeping that goes with a call: capability slots, the rest
of the process records, and the quiet events. -/
class Bookkeeping (I : World → Prop) : Prop extends BlindCaps I, BlindRest I, TraceKeeps I

instance (priority := low) Bookkeeping.of_parts [BlindCaps I] [BlindRest I] [TraceKeeps I] :
    Bookkeeping I where
  toBlindCaps := inferInstance
  toBlindRest := inferInstance
  toTraceKeeps := inferInstance

/-- The lookup of a process changes nothing. -/
@[simp] theorem getProcess_keeps (pid : Nat) : Keeps I (getProcess pid) :=
  (getProcess_frames pid).keepsProp

/-- A slot that is allocated. -/
@[simp] theorem cspaceAlloc_keeps [BlindCaps I] :
    Keeps I cspaceAlloc := cspaceAlloc_frames.keepsProp

/-- A slot that is freed. -/
@[simp] theorem cspaceFree_keeps [BlindCaps I] (slot : Nat) : Keeps I (cspaceFree slot) :=
  (cspaceFree_frames slot).keepsProp

/-- A change of the descriptors of the process keeps the invariant. -/
class OwnFiles (I : World → Prop) (pid : Nat) : Prop where
  own : ∀ f, Keeps I (modifyFiles pid f)

instance (priority := low) OwnFiles.of_blind [BlindFiles I] (pid : Nat) : OwnFiles I pid where
  own f := (modifyFiles_frames pid f).keepsProp

/-- A change of the descriptors of the process that the invariant leaves to it. -/
@[simp] theorem modifyFiles_keeps (pid : Nat) [h : OwnFiles I pid] (f : FilesState → FilesState) :
    Keeps I (modifyFiles pid f) := h.own f

/-- A copy from a process. -/
@[simp] theorem copyFromUser_keeps [h : UserKeeps I] (pid a n : Nat) :
    Keeps I (copyFromUser pid a n) := h.copyFromUser pid a n

/-- A copy to a process. -/
@[simp] theorem copyToUser_keeps [h : UserKeeps I] (pid a : Nat) (bytes : List UInt8) :
    Keeps I (copyToUser pid a bytes) := h.copyToUser pid a bytes

/-- A change of the lifecycle state of a process. -/
theorem modifyState_keeps [h : BlindRest I] (pid : Nat) (l : TaskStruct → TaskLifecycleState) :
    Keeps I (modifyTask pid fun t => { t with lifecycle := l t }) :=
  keeps_modify fun w => h.state w pid l

/-- What is logged of stops. -/
@[simp] theorem logStop_keeps [h : BlindStops I] (e : StopEvent) : Keeps I (logStop e) :=
  keeps_modify fun w => h.stopLog w _

/-- The mark of a stop that was not reported. -/
@[simp] theorem markStopSkewed_keeps [h : BlindStops I] : Keeps I markStopSkewed :=
  keeps_modify fun w => h.stopSkewed w _

/-- A process is recorded as stopped or running. -/
@[simp] theorem setStopped_keeps [h : BlindStops I] (pid : Nat) (stopped : Bool) :
    Keeps I (setStopped pid stopped) := by
  refine Keeps.bind (Keeps.gets _) fun task => Keeps.bind (by simp) fun _ =>
    keeps_modify fun w => ?_
  cases stopped with
  | true => exact h.stops w pid (fun _ => true) fun _ => .stopped
  | false => exact h.stops w pid (fun _ => false) fun _ => .running

/-! ### Child events and waiting replies -/

/-- The mark of records of dead processes. -/
@[simp] theorem noteStale_keeps [h : BlindHosts I] (stale : World → Bool) :
    Keeps I (noteStale stale) := keeps_modify fun w => h.stale w _

section Waits

variable [hw : BlindWaits I]

/-- An event of a child is queued for its parent. -/
@[simp] theorem recordChildEvent_keeps [BlindHosts I] (parentPid : Nat) (e : ChildStateEvent) :
    Keeps I (recordChildEvent parentPid e) :=
  Keeps.bind (noteStale_keeps _) fun _ => keeps_modify fun w => hw.childEvents w _

/-- The end of a child is queued for its parent. -/
@[simp] theorem recordChildExit_keeps [BlindHosts I] (parentPid childPid status pgid : Nat) :
    Keeps I (recordChildExit parentPid childPid status pgid) := recordChildEvent_keeps _ _

/-- A stop or continuation of a child is queued for its parent, and logged. -/
theorem recordChildChange_keeps [BlindStops I] [BlindHosts I] (parentPid : Nat)
    (e : ChildStateEvent) :
    Keeps I (recordChildChange parentPid e) :=
  Keeps.bind (keeps_modify fun w => hw.missedWake w _) fun _ =>
    Keeps.bind (logStop_keeps _) fun _ => recordChildEvent_keeps _ _

/-- An event that `wait4` took is struck off its queue. -/
@[simp] theorem noteWaited_keeps (e : ChildStateEvent) (rest : List ChildStateEvent) :
    Keeps I (noteWaited e rest) := keeps_modify fun w =>
  (hw.leftEvents { w with waited := e :: w.waited } _).trans (hw.waited w _)

/-- The snapshot of a process that ended. -/
@[simp] theorem markProcessExited_keeps (pid parentPid pgid status : Nat) :
    Keeps I (markProcessExited pid parentPid pgid status) :=
  keeps_modify fun w => hw.lifecycle w _

/-- The snapshot of a process that was waited for is taken away. -/
@[simp] theorem clearProcessLifecycle_keeps (pid : Nat) : Keeps I (clearProcessLifecycle pid) :=
  keeps_modify fun w => hw.lifecycle w _

/-- The first event that matches is taken, if there is one. -/
@[simp] theorem popChildEventMatching_keeps (parentPid : Nat) (target : Int)
    (options callerPgid : Nat) :
    Keeps I (popChildEventMatching parentPid target options callerPgid) := by
  unfold popChildEventMatching
  refine Keeps.bind (Keeps.gets _) fun queue => ?_
  split
  · exact Keeps.pure _
  · exact Keeps.bind (keeps_modify fun w => hw.childEvents w _) fun _ =>
      Keeps.bind (noteWaited_keeps _ _) fun _ => Keeps.pure _

end Waits

/-- The search for a free slot, which gives back the slots it cannot use. -/
@[simp] theorem reserveSlot_keeps [BlindCaps I] (n : Nat) : Keeps I (reserveSlot n) := by
  induction n with
  | zero => exact Keeps.throw _
  | succ n ih =>
    unfold reserveSlot
    refine Keeps.bind cspaceAlloc_keeps fun slot => Keeps.bind (Keeps.gets _) fun src => ?_
    exact Keeps.ite (Keeps.bind (cspaceFree_keeps _) fun _ => ih) (Keeps.pure _)

/-- A slot for a deferred reply. -/
@[simp] theorem reservePendingReplySlot_keeps [BlindCaps I] :
    Keeps I reservePendingReplySlot := by
  unfold reservePendingReplySlot
  refine Keeps.bind (Keeps.gets _) fun src => Keeps.ite (Keeps.throw _) ?_
  exact Keeps.bind (reserveSlot_keeps _) fun slot => Keeps.bind (by simp) fun _ => Keeps.pure _

/-- A deferred reply is sent and its slot freed. -/
@[simp] theorem replyAndFree_keeps [BlindCaps I] [TraceKeeps I] (slot : Nat) (value : Int) :
    Keeps I (replyAndFree slot value) := by simp [replyAndFree]

/-- A `wait4` that has to wait is recorded. -/
@[simp] theorem queueWait4Reply_keeps [BlindCaps I] [hw : BlindWaits I] (pid : Nat) (target : Int)
    (wstatus options callerPgid : Nat) :
    Keeps I (queueWait4Reply pid target wstatus options callerPgid) := by
  unfold queueWait4Reply
  refine Keeps.bind (Keeps.gets _) fun busy => Keeps.ite (Keeps.throw _) ?_
  exact Keeps.bind reservePendingReplySlot_keeps fun slot =>
    keeps_modify fun w => hw.pendingWaits w _

/-- An invariant that is blind to waits is kept when a deferred `wait4` is given up. -/
theorem dropWait4Reply_keeps_blind [BlindCaps I] [hw : BlindWaits I] (pid : Nat) :
    Keeps I (dropWait4Reply pid) := by
  unfold dropWait4Reply
  refine Keeps.bind (Keeps.gets _) fun pending => Keeps.whenSome fun p => ?_
  exact Keeps.bind (keeps_modify fun w => hw.pendingWaits w _) fun _ => cspaceFree_keeps _

/-! ### Descriptors -/

section Handles

variable {K : World × FileHandle → Prop}

section Loops

variable (hmove : ∀ n s, K s → K (moveTo (satAdd s.2.offset n) s))

include hmove

/-- The loop of a read keeps what the moves of the handle and the commands in it keep. -/
theorem readLoop_keeps_of {pid bufPtr len : Nat}
    (hread : ∀ slot offset n, Keeps K (inFst (fsRead slot offset n)))
    (hcopy : ∀ a bytes, Keeps K (inFst (copyToUser pid a bytes))) (fuel total : Nat) :
    Keeps K (readLoop pid bufPtr len fuel total) := by
  induction fuel generalizing total with
  | zero => exact Keeps.pure _
  | succ fuel ih =>
    unfold readLoop
    refine Keeps.ite (Keeps.bind (Keeps.gets _) fun handle => ?_) (Keeps.pure _)
    refine Keeps.bind (hread _ _ _) fun bytes => Keeps.ite (Keeps.pure _) ?_
    refine Keeps.bind (Keeps.getSome _ _) fun dst => Keeps.bind (hcopy _ _) fun _ => ?_
    exact Keeps.bind (fun s hs => hmove _ s hs) fun _ => Keeps.ite (Keeps.pure _) (ih _)

/-- The loop of a write keeps what the moves of the handle and the commands in it keep. -/
theorem writeLoop_keeps_of {pid bufPtr len : Nat}
    (hwrite : ∀ slot offset bytes, Keeps K (inFst (fsWrite slot offset bytes)))
    (hcopy : ∀ a n, Keeps K (inFst (copyFromUser pid a n))) (fuel total : Nat) :
    Keeps K (writeLoop pid bufPtr len fuel total) := by
  induction fuel generalizing total with
  | zero => exact Keeps.pure _
  | succ fuel ih =>
    unfold writeLoop
    refine Keeps.ite (Keeps.bind (Keeps.getSome _ _) fun src => ?_) (Keeps.pure _)
    refine Keeps.bind (hcopy _ _) fun bytes => Keeps.bind (Keeps.gets _) fun handle => ?_
    refine Keeps.bind (hwrite _ _ _) fun written => ?_
    exact Keeps.bind (fun s hs => hmove _ s hs) fun _ => Keeps.ite (Keeps.pure _) (ih _)

end Loops

/-- A seek keeps what a move of the handle keeps. -/
theorem seekHandle_keeps_of (hmove : ∀ n s, K s → K (moveTo n s)) (hext : Keeps K (inFst ext))
    (offset : Int) (whence : Nat) :
    Keeps K (seekHandle offset whence) := by
  have hbase : Keeps K (seekBase whence) := by
    refine Keeps.ite (Keeps.pure _) (Keeps.ite ?_ (Keeps.ite ?_ (Keeps.throw _)))
    · exact Keeps.bind (Keeps.gets _) fun _ => Keeps.pure _
    · exact Keeps.bind hext fun _ => Keeps.pure _
  refine Keeps.bind hbase fun base => Keeps.bind (Keeps.getSome _ _) fun newOff => ?_
  exact Keeps.ite (Keeps.throw _) (Keeps.bind (fun s hs => hmove _ s hs) fun _ => Keeps.pure _)

end Handles

section Files

variable [BlindCaps I] [TraceKeeps I] [BlindMarks I] [he : BlindEndpoints I]

omit [BlindMarks I] he in
/-- A read of the file service. -/
@[simp] theorem fsRead_keeps (slot offset len : Nat) : Keeps I (fsRead slot offset len) := by
  simp [fsRead]

omit [BlindMarks I] he in
/-- A write of the file service. -/
@[simp] theorem fsWrite_keeps (slot offset : Nat) (bytes : List UInt8) :
    Keeps I (fsWrite slot offset bytes) := by simp [fsWrite]

omit [BlindCaps I] [TraceKeeps I] [BlindMarks I] he in
/-- A command on a handle that keeps the invariant of the server. -/
theorem withFdHandleMut_keeps {α : Type} (pid : Nat) [OwnFiles I pid] (fd : Nat) {f : H α}
    (h : Keeps (fun s : World × FileHandle => I s.1) f) : Keeps I (withFdHandleMut pid fd f) := by
  unfold withFdHandleMut
  refine Keeps.ite (Keeps.throw _) (Keeps.bind (getProcess_keeps _) fun task => ?_)
  refine Keeps.bind (Keeps.getSome _ _) fun handle => Keeps.bind (modifyFiles_keeps _ _) fun _ => ?_
  exact Keeps.bind (Keeps.runWith h) fun r => Keeps.bind (modifyFiles_keeps _ _) fun _ =>
    Keeps.ofExcept _

omit [BlindCaps I] [TraceKeeps I] [BlindMarks I] he in
/-- A new position of a handle that is out of the table. -/
theorem moveTo_keeps [h : BlindMarks I] (n : Nat) (s : World × FileHandle) (hs : I s.1) :
    I (moveTo n s).1 := (h.positionSplit s.1 _).mpr hs

omit he in
/-- The loop of `read` reads a chunk and copies it to the process. -/
@[simp] theorem readLoop_keeps [UserKeeps I] (pid bufPtr len fuel total : Nat) :
    Keeps (fun s : World × FileHandle => I s.1) (readLoop pid bufPtr len fuel total) :=
  readLoop_keeps_of (fun _ s => moveTo_keeps _ s) (fun _ _ _ => Keeps.inFst (fsRead_keeps _ _ _))
    (fun _ _ => Keeps.inFst (copyToUser_keeps _ _ _)) fuel total

omit he in
/-- The loop of `write` copies a chunk from the process and writes it. -/
@[simp] theorem writeLoop_keeps [UserKeeps I] (pid bufPtr len fuel total : Nat) :
    Keeps (fun s : World × FileHandle => I s.1) (writeLoop pid bufPtr len fuel total) :=
  writeLoop_keeps_of (fun _ s => moveTo_keeps _ s) (fun _ _ _ => Keeps.inFst (fsWrite_keeps _ _ _))
    (fun _ _ => Keeps.inFst (copyFromUser_keeps _ _ _)) fuel total

omit [TraceKeeps I] he in
/-- `lseek` changes the offset of a handle. -/
@[simp] theorem doLseek_keeps (pid : Nat) [OwnFiles I pid] (fd : Nat) (offset : Int)
    (whence : Nat) :
    Keeps I (doLseek pid fd offset whence) := by
  exact withFdHandleMut_keeps pid fd (seekHandle_keeps_of moveTo_keeps (Keeps.inFst ext_keeps) _ _)

omit he in
/-- `read` takes the handle out of the table, runs its loop and puts it back. -/
@[simp] theorem doRead_keeps [UserKeeps I] (pid : Nat) [OwnFiles I pid] (fd bufPtr len : Nat) :
    Keeps I (doRead pid fd bufPtr len) :=
  Keeps.ite (Keeps.pure _) (withFdHandleMut_keeps pid fd (readLoop_keeps _ _ _ _ _))

omit he in
/-- `write` takes the handle out of the table, runs its loop and puts it back. -/
@[simp] theorem doWrite_keeps [UserKeeps I] (pid : Nat) [OwnFiles I pid] (fd bufPtr len : Nat) :
    Keeps I (doWrite pid fd bufPtr len) :=
  Keeps.ite (Keeps.pure _) (withFdHandleMut_keeps pid fd (writeLoop_keeps _ _ _ _ _))

omit [BlindCaps I] [TraceKeeps I] [BlindMarks I] he in
/-- `readv` and `writev` run the single call for each entry of the vector. -/
theorem rwVectorLoop_keeps [UserKeeps I] (pid iovPtr : Nat) {rw : Nat → Nat → M Nat}
    (h : ∀ a n, Keeps I (rw a n)) (l : List Nat) (total : Nat) :
    Keeps I (rwVectorLoop pid iovPtr rw l total) := by
  induction l generalizing total with
  | nil => exact Keeps.pure _
  | cons i rest ih =>
    unfold rwVectorLoop
    refine Keeps.bind (Keeps.getSome _ _) fun addr =>
      Keeps.bind (copyFromUser_keeps _ _ _) fun raw => Keeps.ite (ih _) ?_
    exact Keeps.bind (h _ _) fun n => Keeps.ite (Keeps.pure _) (Keeps.ite (Keeps.pure _) (ih _))

omit [BlindCaps I] [TraceKeeps I] [BlindMarks I] he in
/-- `readv` and `writev` check the number of entries and run the loop. -/
theorem sysRwVector_keeps [UserKeeps I] (pid iovPtr iovCnt : Nat) {rw : Nat → Nat → M Nat}
    (h : ∀ a n, Keeps I (rw a n)) : Keeps I (sysRwVector pid iovPtr iovCnt rw) :=
  Keeps.ite (Keeps.pure _) (Keeps.ite (Keeps.throw _) (rwVectorLoop_keeps pid iovPtr h _ _))

omit [BlindMarks I] in
/-- An endpoint is closed. -/
@[simp] theorem closeEndpoint_keeps (slot : Nat) :
    Keeps I (closeEndpoint slot) := by
  unfold closeEndpoint
  refine Keeps.bind (by simp) fun _ => Keeps.bind (keeps_modify fun w => ?_) fun _ =>
    Keeps.bind (by simp) fun _ => by simp
  let w₁ : World := { w with doubleClose := w.doubleClose || !decide (slot ∈ w.openEndpoints) }
  exact (he.endpoints w₁ (w.openEndpoints.erase slot)).trans (he.doubleClose w _)

omit [BlindCaps I] [TraceKeeps I] [BlindMarks I] in
/-- A region goes back to the pool. -/
@[simp] theorem recycleRegion_keeps (id : Nat) :
    Keeps I (recycleRegion id) := by
  refine keeps_modify fun w => ?_
  split
  · exact he.asyncFree w _
  · rfl

omit [BlindCaps I] [TraceKeeps I] [BlindMarks I] in
/-- The region of a closed handle goes back to the pool, unless another handle has it. -/
@[simp] theorem recycleClosed_keeps (io : AsyncIoState) (shared : Bool) :
    Keeps I (recycleClosed io shared) :=
  Keeps.bind (keeps_modify fun w => he.earlyRecycle w _) fun _ => recycleRegion_keeps _

omit [BlindMarks I] in
/-- What `do_close` does when the descriptor is out of the table. -/
theorem afterClose_keeps (handle : FileHandle) :
    Keeps I (do
      let shared ← gets (·.endpointShared handle.fsEpSlot)
      when (¬ shared) (closeEndpoint handle.fsEpSlot)
      whenSome handle.asyncIo fun io => recycleClosed io shared : M Unit) :=
  Keeps.bind (Keeps.gets _) fun shared => Keeps.bind (by simp) fun _ => by simp

omit [BlindMarks I] in
/-- `close` takes the handle out, recycles its region and closes its endpoint. -/
@[simp] theorem doClose_keeps (pid : Nat) [OwnFiles I pid] (fd : Nat) :
    Keeps I (doClose pid fd) := by
  unfold doClose
  refine Keeps.ite (Keeps.throw _) (Keeps.bind (getProcess_keeps _) fun task => ?_)
  refine Keeps.bind (modifyFiles_keeps _ _) fun _ => Keeps.bind (Keeps.getSome _ _) fun handle => ?_
  exact afterClose_keeps handle

omit [TraceKeeps I] [BlindMarks I] in
/-- A file is opened at the service. -/
@[simp] theorem fsOpen_keeps (slot : Nat) : Keeps I (fsOpen slot) :=
  Keeps.bind ext_keeps fun _ => keeps_modify fun w => he.endpoints w _

omit [BlindCaps I] [TraceKeeps I] [BlindMarks I] in
/-- A region is taken from the pool, if there is one. -/
theorem tryReuseRegion_keeps : Keeps I tryReuseRegion := by
  unfold tryReuseRegion
  refine Keeps.bind (Keeps.gets _) fun free => ?_
  split
  · exact Keeps.pure _
  · exact Keeps.bind (keeps_modify fun w => he.asyncFree w _) fun _ => Keeps.gets _

omit [TraceKeeps I] [BlindMarks I] in
/-- A region is reused or a new one is made. -/
theorem allocateFsAsyncRegion_keeps [ha : AllocKeeps I] (size : Nat) :
    Keeps I (allocateFsAsyncRegion size) := by
  have hreserve : ∀ n, Keeps I (reserveAsyncVaddr n) := fun n =>
    Keeps.bind (Keeps.gets _) fun vaddr => Keeps.bind (Keeps.getSome _ _) fun next =>
      Keeps.bind (keeps_modify fun w => he.asyncVaddr w _) fun _ => Keeps.pure _
  have hnew : ∀ n, Keeps I (newAsyncRegion n) := fun n =>
    Keeps.bind (ha.alloc _) fun slot => Keeps.bind (hreserve _) fun vaddr =>
      Keeps.bind ext_keeps fun _ => Keeps.bind (Keeps.gets _) fun id =>
        Keeps.bind (keeps_modify fun w => he.asyncRegions w _) fun _ => Keeps.pure _
  unfold allocateFsAsyncRegion
  refine Keeps.bind tryReuseRegion_keeps fun reused => ?_
  split
  · exact Keeps.pure _
  · exact Keeps.bind (Keeps.gets _) fun count => Keeps.ite (Keeps.throw _) (hnew _)

omit [TraceKeeps I] [BlindMarks I] in
/-- A ring is set up over a region. -/
theorem setupIouring_keeps (region : AsyncIoRegion) :
    Keeps I (setupIouring region) := by
  have hmark : ∀ b, Keeps I (Cmd.modify fun w => { w with iouringSupported := b } : M Unit) :=
    fun b => keeps_modify fun w => he.iouring w _
  unfold setupIouring
  refine Keeps.bind (Keeps.attempt ext_keeps) fun r => ?_
  split
  · exact Keeps.bind (hmark _) fun _ => Keeps.ite (Keeps.pure _) (by simp)
  · exact Keeps.bind (hmark _) fun _ => by simp
  · simp

omit [TraceKeeps I] [BlindMarks I] in
/-- The asynchronous side of a handle is a region with a ring. -/
theorem openAsyncIo_keeps [AllocKeeps I] : Keeps I openAsyncIo := by
  unfold openAsyncIo
  refine Keeps.bind (Keeps.gets _) fun wanted => Keeps.ite (Keeps.pure _) ?_
  refine Keeps.bind (Keeps.attempt (allocateFsAsyncRegion_keeps _)) fun r => ?_
  split
  · exact setupIouring_keeps _
  · exact Keeps.pure _

omit [BlindCaps I] [TraceKeeps I] [BlindMarks I] he in
/-- What is logged of close-on-exec flags. -/
@[simp] theorem logCloexec_keeps [h : BlindMarks I] (e : CloexecEvent) : Keeps I (logCloexec e) :=
  keeps_modify fun w => h.cloexecLog w _

omit [TraceKeeps I] in
/-- `openat` reads the path, opens the file and puts the handle in. -/
@[simp] theorem doOpenat_keeps [h : UserKeeps I] [AllocKeeps I] (pid : Nat) [OwnFiles I pid]
    (pathname flags : Nat) :
    Keeps I (doOpenat pid pathname flags) := by
  have hopen : ∀ path, Keeps I (openViaNexusFs pid path flags) := by
    intro path
    unfold openViaNexusFs
    exact Keeps.bind (by simp) fun slot => Keeps.bind (by simp) fun _ =>
      Keeps.bind openAsyncIo_keeps fun asyncIo => Keeps.bind (by simp) fun task =>
        Keeps.bind (keeps_modify fun w => he.fdOverflow w _) fun _ => by simp
  unfold doOpenat
  exact Keeps.bind (h.readString _ _ _) fun raw => Keeps.bind (by simp) fun task =>
    Keeps.bind (Keeps.gets _) fun resolve => hopen _

omit [BlindCaps I] [TraceKeeps I] he in
/-- `fcntl` reads and changes the flags of a handle, or duplicates it. -/
@[simp] theorem doFcntl_keeps (pid : Nat) [OwnFiles I pid] (fd cmd arg : Nat) :
    Keeps I (doFcntl pid fd cmd arg) := by
  have hdup : ∀ cloexec, Keeps I (dupFd pid fd arg cloexec) := fun cloexec =>
    Keeps.bind (by simp) fun task => Keeps.bind (by simp) fun handle =>
      Keeps.ite (by simp) (Keeps.bind (by simp) fun newFd => by simp)
  unfold doFcntl
  refine Keeps.ite (by simp) (Keeps.ite (by simp) (Keeps.ite (hdup _) (Keeps.ite (by simp) ?_)))
  refine Keeps.bind (by simp) fun task => Keeps.bind (by simp) fun _ => Keeps.ite (by simp) ?_
  exact Keeps.ite (by simp) (by simp)

/-- `dup3` closes the new number and puts a copy of the handle there. -/
@[simp] theorem doDup3_keeps (pid : Nat) [OwnFiles I pid] (oldfd newfd flags : Nat) :
    Keeps I (doDup3 pid oldfd newfd flags) := by
  unfold doDup3
  refine Keeps.ite (by simp) (Keeps.ite (by simp) (Keeps.ite (by simp) ?_))
  exact Keeps.bind (by simp) fun task => Keeps.bind (by simp) fun handle =>
    Keeps.bind (by simp) fun _ => Keeps.bind (by simp) fun _ => by simp

/-- `pipe2` opens both ends and stores their numbers. -/
@[simp] theorem doPipe2_keeps [UserKeeps I] (pid : Nat) [OwnFiles I pid] (pipefd flags : Nat) :
    Keeps I (doPipe2 pid pipefd flags) := by
  -- each step of the call keeps the invariant, and so do the steps that undo one
  have hopen : Keeps I openPipeEndViaPipefs := by
    unfold openPipeEndViaPipefs
    exact Keeps.bind (Keeps.gets _) fun endpoint => Keeps.ite (by simp)
      (Keeps.bind (by simp) fun slot => by simp)
  have hcreate : Keeps I createPipe := by
    unfold createPipe
    refine Keeps.bind (Keeps.gets _) fun endpoint => Keeps.ite (by simp) ?_
    exact Keeps.bind (by simp) fun r => by split <;> simp
  have hremove : ∀ readFd writeFd, Keeps I (removePipe pid readFd writeFd) := fun readFd writeFd =>
    Keeps.bind (by simp) fun task => Keeps.bind (by simp) fun _ =>
      Keeps.bind (by simp) fun _ => by simp
  have hinstall : ∀ readSlot writeSlot cloexec,
      Keeps I (installPipe pid pipefd readSlot writeSlot cloexec) := by
    intro readSlot writeSlot cloexec
    unfold installPipe
    refine Keeps.bind (by simp) fun task => Keeps.bind (by simp) fun readFd =>
      Keeps.bind (by simp) fun writeFd => Keeps.bind (by simp) fun _ =>
        Keeps.bind (by simp) fun _ =>
        Keeps.bind (by simp) fun _ => Keeps.ite (by simp) ?_
    exact Keeps.onError (by simp) fun _ => hremove _ _
  unfold doPipe2
  refine Keeps.ite (by simp) (Keeps.ite (by simp) (Keeps.bind hcreate fun pipeId => ?_))
  refine Keeps.ite (by simp) (Keeps.bind hopen fun readSlot => ?_)
  exact Keeps.bind (Keeps.onError hopen fun _ => by simp) fun writeSlot => hinstall _ _ _

omit [TraceKeeps I] in
/-- The three standard descriptors are opened on the terminal. -/
theorem openStdio_keeps [h : BlindRest I] (pid : Nat) [OwnFiles I pid] (term : Nat) :
    Keeps I (openStdio pid term) :=
  Keeps.bind (by simp) fun slot => Keeps.bind (by simp) fun _ =>
    Keeps.bind (keeps_modify fun w => h.tty w pid fun _ => term) fun _ =>
      Keeps.bind (modifyFiles_keeps _ _) fun _ => Keeps.forEach fun fd => logCloexec_keeps _

end Files

/-- The calls of the process on descriptors keep the invariant. -/
class FileCalls (I : World → Prop) (pid : Nat) : Prop where
  read : ∀ fd buf len, Keeps I (doRead pid fd buf len)
  write : ∀ fd buf len, Keeps I (doWrite pid fd buf len)
  lseek : ∀ fd offset whence, Keeps I (doLseek pid fd offset whence)
  close : ∀ fd, Keeps I (doClose pid fd)
  openat : ∀ pathname flags, Keeps I (doOpenat pid pathname flags)
  fcntl : ∀ fd cmd arg, Keeps I (doFcntl pid fd cmd arg)
  dup3 : ∀ oldfd newfd flags, Keeps I (doDup3 pid oldfd newfd flags)
  pipe2 : ∀ pipefd flags, Keeps I (doPipe2 pid pipefd flags)

instance FileCalls.of_own [BlindCaps I] [TraceKeeps I] [BlindMarks I] [BlindEndpoints I]
    [UserKeeps I] [AllocKeeps I] (pid : Nat) [OwnFiles I pid] : FileCalls I pid where
  read := doRead_keeps pid
  write := doWrite_keeps pid
  lseek := doLseek_keeps pid
  close := doClose_keeps pid
  openat := doOpenat_keeps pid
  fcntl := doFcntl_keeps pid
  dup3 := doDup3_keeps pid
  pipe2 := doPipe2_keeps pid

/-- The calls on descriptors keep the invariant. -/
class FilesKeeps (I : World → Prop) : Prop where
  read : ∀ pid fd buf len, Keeps I (doRead pid fd buf len)
  write : ∀ pid fd buf len, Keeps I (doWrite pid fd buf len)
  lseek : ∀ pid fd offset whence, Keeps I (doLseek pid fd offset whence)
  close : ∀ pid fd, Keeps I (doClose pid fd)
  openat : ∀ pid pathname flags, Keeps I (doOpenat pid pathname flags)
  fcntl : ∀ pid fd cmd arg, Keeps I (doFcntl pid fd cmd arg)
  dup3 : ∀ pid oldfd newfd flags, Keeps I (doDup3 pid oldfd newfd flags)
  pipe2 : ∀ pid pipefd flags, Keeps I (doPipe2 pid pipefd flags)
  openStdio : ∀ pid term w, I w → w.Closed pid → I ((openStdio pid term).run w).2

instance (priority := low) FileCalls.of_files [h : FilesKeeps I] (pid : Nat) : FileCalls I pid where
  read := h.read pid
  write := h.write pid
  lseek := h.lseek pid
  close := h.close pid
  openat := h.openat pid
  fcntl := h.fcntl pid
  dup3 := h.dup3 pid
  pipe2 := h.pipe2 pid

instance FilesKeeps.of_blind [BlindCaps I] [TraceKeeps I] [BlindFiles I] [BlindRest I]
    [UserKeeps I] [AllocKeeps I] : FilesKeeps I where
  read pid := doRead_keeps pid
  write pid := doWrite_keeps pid
  lseek pid := doLseek_keeps pid
  close pid := doClose_keeps pid
  openat pid := doOpenat_keeps pid
  fcntl pid := doFcntl_keeps pid
  dup3 pid := doDup3_keeps pid
  pipe2 pid := doPipe2_keeps pid
  openStdio pid term w hw _ := openStdio_keeps pid term w hw

end Ape
