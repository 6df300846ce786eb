import Ape.Model.Syscall

/-!
# `Ape.Proofs.Views`: what a command leaves alone

A view is a function of the state. The classes of this module say which kind of change a view
does not see: the bookkeeping of capability slots, page tables, bytes, the tables of the
processes, signals, descriptors, and so on. A command that makes only changes of these kinds
leaves the view alone, and each command has one lemma that says which kinds it needs.

A proof about one part of the state then picks a view of that part, shows once what the view
does not see, and gets every unrelated command for free.
-/

set_option autoImplicit false

namespace Ape

open Ape.Lib Cmd

section Classes

variable {γ : Type} (V : World → γ)

/-- The view does not see calls and capability slots. -/
class BlindCaps : Prop where
  tick : ∀ w n, V { w with tick := n } = V w
  slots : ∀ w s, V { w with slots := s } = V w
  refused : ∀ w b, V { w with refused := b } = V w := by intros; rfl

/-- The view does not see calls, capability slots and the ledger. -/
class BlindSlots : Prop extends BlindCaps V where
  ledger : ∀ w l, V { w with ledger := l } = V w

/-- The view does not see what is recorded in the ledger of the process. -/
class BlindLedger (pid : Nat) : Prop where
  own : ∀ w l, V { w with ledger := w.ledger.insert pid l } = V w

/-- The view does not see which intermediate page tables there are. -/
class BlindPaths : Prop extends BlindCaps V where
  tables : ∀ w pid (f : TaskStruct → OrdMap (Nat ×ₗ Nat) Nat), V (w.modifyTask pid fun t =>
    { t with mm := { t.mm with intermediatePageTables := f t } }) = V w

/-- The view does not see page tables. -/
class BlindTables : Prop extends BlindPaths V where
  vspace : ∀ w pid f, V (w.modifyVspace pid f) = V w

/-- The view does not see that a scratch mapping is made or removed. -/
class BlindScratch : Prop extends BlindCaps V where
  scratch : ∀ w base o,
    V { w with scratch := fun b => if b = base then o else w.scratch b } = V w

/-- The view does not see scratch mappings and the bytes of frames. -/
class BlindBytes : Prop extends BlindScratch V where
  writeFrame : ∀ w s f, V (w.writeFrame s f) = V w

/-- The view does not see which frames there are and how often they are used. -/
class BlindFrames : Prop extends BlindCaps V where
  frames : ∀ w slot o,
    V { w with frames := fun s => if s = slot then o else w.frames s } = V w
  refs : ∀ w r, V { w with frameCapRefs := r } = V w
  doubleFree : ∀ w b, V { w with doubleFree := b } = V w

/-- The view does not see what is logged of file mappings. -/
class BlindMaps : Prop where
  fileMapLog : ∀ w l, V { w with fileMapLog := l } = V w

/-- The view does not see the memory state of a process. -/
class BlindMm : Prop extends BlindMaps V where
  mm : ∀ w pid f, V (w.modifyMm pid f) = V w

/-- The view does not see the memory of the processes, apart from the ledger. -/
class BlindSpace : Prop extends BlindTables V, BlindBytes V, BlindFrames V, BlindMm V

/-- The view does not see the memory of the processes. -/
class BlindMemory : Prop extends BlindSpace V, BlindSlots V

/-- The view does not see the trace. -/
class BlindTrace : Prop where
  trace : ∀ w l, V { w with trace := l } = V w

/-- The view does not see the signal state of the processes. -/
class BlindSignals : Prop where
  signal : ∀ w pid f, V (w.modifySignal pid f) = V w
  dropped : ∀ w b, V { w with signalDropped := b } = V w
  missedIntr : ∀ w b, V { w with missedIntr := b } = V w

/-- The view does not see what is logged of close-on-exec flags and of positions. -/
class BlindMarks : Prop where
  cloexecLog : ∀ w l, V { w with cloexecLog := l } = V w
  positionSplit : ∀ w b, V { w with positionSplit := b } = V w

/-- The view does not see file endpoints and the pool of regions. -/
class BlindEndpoints : Prop where
  endpoints : ∀ w e, V { w with openEndpoints := e } = V w
  doubleClose : ∀ w b, V { w with doubleClose := b } = V w
  asyncFree : ∀ w l, V { w with asyncFree := l } = V w
  asyncRegions : ∀ w l, V { w with asyncRegions := l } = V w
  asyncVaddr : ∀ w n, V { w with nextAsyncVaddr := n } = V w
  iouring : ∀ w b, V { w with iouringSupported := b } = V w
  fdOverflow : ∀ w b, V { w with fdOverflow := b } = V w
  earlyRecycle : ∀ w b, V { w with earlyRecycle := b } = V w

/-- The view does not see descriptors, file endpoints and the regions of the handles. -/
class BlindFiles : Prop extends BlindEndpoints V, BlindMarks V where
  files : ∀ w pid (f : FilesState → FilesState),
    V (w.modifyTask pid fun t => { t with files := f t.files }) = V w

/-- The view does not see the processes of the host, and what is marked of dead processes. -/
class BlindHosts : Prop where
  hostPidMap : ∀ w m, V { w with hostPidMap := m } = V w
  stale : ∀ w b, V { w with staleRecords := b } = V w

/-- The view does not see the rest of a process record: its state, its ids and its signal
actions, and what is logged of its stops. -/
class BlindRecords : Prop extends BlindHosts V where
  record : ∀ w pid (f : TaskStruct → TaskStruct),
    (∀ t, (f t).mm = t.mm ∧ (f t).signal = t.signal ∧ (f t).files = t.files) →
    V (w.modifyTask pid f) = V w
  stopLog : ∀ w l, V { w with stopLog := l } = V w
  stopSkewed : ∀ w b, V { w with stopSkewed := b } = V w

/-- The view does not see the lifecycle state and the terminal of a process. -/
class BlindRest : Prop where
  state : ∀ w pid (l : TaskStruct → TaskLifecycleState),
    V (w.modifyTask pid fun t => { t with lifecycle := l t }) = V w
  tty : ∀ w pid (c : TaskStruct → Nat),
    V (w.modifyTask pid fun t => { t with controllingTty := c t }) = V w

/-- The view does not see that a process is stopped or runs, and what is logged of it. -/
class BlindStops : Prop where
  stops : ∀ w pid (b : TaskStruct → Bool) (l : TaskStruct → TaskLifecycleState),
    V (w.modifyTask pid fun t => { t with stopped := b t, lifecycle := l t }) = V w
  stopLog : ∀ w l, V { w with stopLog := l } = V w
  stopSkewed : ∀ w b, V { w with stopSkewed := b } = V w

/-- The view does not see the session, the group and the terminal of a process. -/
class BlindJobs : Prop where
  jobs : ∀ w pid (s g c : TaskStruct → Nat), V (w.modifyTask pid fun t =>
    { t with sessionId := s t, processGroupId := g t, controllingTty := c t }) = V w

/-- The view does not see the signal actions of a process. -/
class BlindActions : Prop where
  actions : ∀ w pid (a : TaskStruct → OrdMap Nat SignalAction),
    V (w.modifyTask pid fun t => { t with signalActions := a t }) = V w

/-- The view does not see child events, deferred `wait4` replies and exit records. -/
class BlindWaits : Prop where
  childEvents : ∀ w e, V { w with childEvents := e } = V w
  pendingWaits : ∀ w p, V { w with pendingWaitReplies := p } = V w
  lifecycle : ∀ w l, V { w with lifecycle := l } = V w
  missedWake : ∀ w b, V { w with missedWake := b } = V w
  waited : ∀ w l, V { w with waited := l } = V w
  leftEvents : ∀ w b, V { w with leftEvents := b } = V w

/-- The view does not see the current caller. -/
class BlindCaller : Prop where
  caller : ∀ w p, V { w with activeCallerPid := p } = V w

/-- The view does not see deferred sleeps. -/
class BlindSleeps : Prop where
  pendingSleeps : ∀ w p, V { w with pendingSleepReplies := p } = V w
  requestId : ∀ w n, V { w with nextRequestId := n } = V w
  idSaturated : ∀ w b, V { w with idSaturated := b } = V w
  sleepLog : ∀ w l, V { w with sleepLog := l } = V w

end Classes

instance (priority := low) BlindLedger.of_slots {γ : Type} {V : World → γ} [h : BlindSlots V]
    (pid : Nat) : BlindLedger V pid := ⟨fun w _ => h.ledger w _⟩

section Records

variable {γ : Type} {V : World → γ} [h : BlindRecords V]

instance (priority := low) BlindRest.of_records : BlindRest V where
  state w pid _ := h.record w pid _ fun _ => ⟨rfl, rfl, rfl⟩
  tty w pid _ := h.record w pid _ fun _ => ⟨rfl, rfl, rfl⟩

instance (priority := low) BlindStops.of_records : BlindStops V where
  stops w pid _ _ := h.record w pid _ fun _ => ⟨rfl, rfl, rfl⟩
  stopLog := h.stopLog
  stopSkewed := h.stopSkewed

instance (priority := low) BlindJobs.of_records : BlindJobs V :=
  ⟨fun w pid _ _ _ => h.record w pid _ fun _ => ⟨rfl, rfl, rfl⟩⟩

instance (priority := low) BlindActions.of_records : BlindActions V :=
  ⟨fun w pid _ => h.record w pid _ fun _ => ⟨rfl, rfl, rfl⟩⟩

end Records

/-! ### Functions of a view

A function of a view sees no more than the view. -/

section Composition

variable {γ δ : Type} {V : World → γ} (g : γ → δ)

/-- What is computed from a view that is blind to calls and slots is blind to them. -/
theorem BlindCaps.comp (h : BlindCaps V) : BlindCaps fun w => g (V w) where
  tick w n := congrArg g (h.tick w n)
  slots w s := congrArg g (h.slots w s)
  refused w b := congrArg g (h.refused w b)

/-- What is computed from a view that is blind to calls, slots and the ledger is blind to them. -/
theorem BlindSlots.comp (h : BlindSlots V) : BlindSlots fun w => g (V w) where
  toBlindCaps := h.toBlindCaps.comp g
  ledger w l := congrArg g (h.ledger w l)

/-- What is computed from a view that is blind to intermediate tables is blind to them. -/
theorem BlindPaths.comp (h : BlindPaths V) : BlindPaths fun w => g (V w) where
  toBlindCaps := h.toBlindCaps.comp g
  tables w pid f := congrArg g (h.tables w pid f)

/-- What is computed from a view that is blind to page tables is blind to them. -/
theorem BlindTables.comp (h : BlindTables V) : BlindTables fun w => g (V w) where
  toBlindPaths := h.toBlindPaths.comp g
  vspace w pid f := congrArg g (h.vspace w pid f)

/-- What is computed from a view that is blind to scratch mappings is blind to them. -/
theorem BlindScratch.comp (h : BlindScratch V) : BlindScratch fun w => g (V w) where
  toBlindCaps := h.toBlindCaps.comp g
  scratch w base o := congrArg g (h.scratch w base o)

/-- What is computed from a view that is blind to bytes is blind to them. -/
theorem BlindBytes.comp (h : BlindBytes V) : BlindBytes fun w => g (V w) where
  toBlindScratch := h.toBlindScratch.comp g
  writeFrame w s f := congrArg g (h.writeFrame w s f)

/-- What is computed from a view that is blind to frames is blind to them. -/
theorem BlindFrames.comp (h : BlindFrames V) : BlindFrames fun w => g (V w) where
  toBlindCaps := h.toBlindCaps.comp g
  frames w s o := congrArg g (h.frames w s o)
  refs w r := congrArg g (h.refs w r)
  doubleFree w b := congrArg g (h.doubleFree w b)

/-- What is computed from a view that is blind to address spaces is blind to them. -/
theorem BlindSpace.comp (h : BlindSpace V) : BlindSpace fun w => g (V w) where
  toBlindTables := h.toBlindTables.comp g
  scratch w base o := congrArg g (h.scratch w base o)
  writeFrame w s f := congrArg g (h.writeFrame w s f)
  frames w s o := congrArg g (h.frames w s o)
  refs w r := congrArg g (h.refs w r)
  doubleFree w b := congrArg g (h.doubleFree w b)
  mm w pid f := congrArg g (h.mm w pid f)
  fileMapLog w l := congrArg g (h.fileMapLog w l)

/-- What is computed from a view that is blind to memory is blind to it. -/
theorem BlindMemory.comp (h : BlindMemory V) : BlindMemory fun w => g (V w) where
  toBlindSpace := h.toBlindSpace.comp g
  ledger w l := congrArg g (h.ledger w l)

/-- What is computed from a view that is blind to the trace is blind to it. -/
theorem BlindTrace.comp (h : BlindTrace V) : BlindTrace fun w => g (V w) :=
  ⟨fun w l => congrArg g (h.trace w l)⟩

/-- What is computed from a view that is blind to signals is blind to them. -/
theorem BlindSignals.comp (h : BlindSignals V) : BlindSignals fun w => g (V w) where
  signal w pid f := congrArg g (h.signal w pid f)
  dropped w b := congrArg g (h.dropped w b)
  missedIntr w b := congrArg g (h.missedIntr w b)

/-- What is computed from a view that is blind to what is logged of descriptors is blind to it. -/
theorem BlindMarks.comp (h : BlindMarks V) : BlindMarks fun w => g (V w) where
  cloexecLog w l := congrArg g (h.cloexecLog w l)
  positionSplit w b := congrArg g (h.positionSplit w b)

/-- What is computed from a view that is blind to endpoints and regions is blind to them. -/
theorem BlindEndpoints.comp (h : BlindEndpoints V) : BlindEndpoints fun w => g (V w) where
  endpoints w e := congrArg g (h.endpoints w e)
  doubleClose w b := congrArg g (h.doubleClose w b)
  asyncFree w l := congrArg g (h.asyncFree w l)
  asyncRegions w l := congrArg g (h.asyncRegions w l)
  asyncVaddr w n := congrArg g (h.asyncVaddr w n)
  iouring w b := congrArg g (h.iouring w b)
  fdOverflow w b := congrArg g (h.fdOverflow w b)
  earlyRecycle w b := congrArg g (h.earlyRecycle w b)

/-- What is computed from a view that is blind to descriptors is blind to them. -/
theorem BlindFiles.comp (h : BlindFiles V) : BlindFiles fun w => g (V w) where
  toBlindEndpoints := h.toBlindEndpoints.comp g
  toBlindMarks := h.toBlindMarks.comp g
  files w pid f := congrArg g (h.files w pid f)

/-- What is computed from a view that is blind to the processes of the host is blind to them. -/
theorem BlindHosts.comp (h : BlindHosts V) : BlindHosts fun w => g (V w) where
  hostPidMap w m := congrArg g (h.hostPidMap w m)
  stale w b := congrArg g (h.stale w b)

/-- What is computed from a view that is blind to process records is blind to them. -/
theorem BlindRecords.comp (h : BlindRecords V) : BlindRecords fun w => g (V w) where
  toBlindHosts := h.toBlindHosts.comp g
  record w pid f hf := congrArg g (h.record w pid f hf)
  stopLog w l := congrArg g (h.stopLog w l)
  stopSkewed w b := congrArg g (h.stopSkewed w b)

/-- What is computed from a view that is blind to lifecycle states is blind to them. -/
theorem BlindRest.comp (h : BlindRest V) : BlindRest fun w => g (V w) where
  state w pid l := congrArg g (h.state w pid l)
  tty w pid c := congrArg g (h.tty w pid c)

/-- What is computed from a view that is blind to stops is blind to them. -/
theorem BlindStops.comp (h : BlindStops V) : BlindStops fun w => g (V w) where
  stops w pid b l := congrArg g (h.stops w pid b l)
  stopLog w l := congrArg g (h.stopLog w l)
  stopSkewed w b := congrArg g (h.stopSkewed w b)

/-- What is computed from a view that is blind to sessions and groups is blind to them. -/
theorem BlindJobs.comp (h : BlindJobs V) : BlindJobs fun w => g (V w) :=
  ⟨fun w pid s k c => congrArg g (h.jobs w pid s k c)⟩

/-- What is computed from a view that is blind to signal actions is blind to them. -/
theorem BlindActions.comp (h : BlindActions V) : BlindActions fun w => g (V w) :=
  ⟨fun w pid a => congrArg g (h.actions w pid a)⟩

/-- What is computed from a view that is blind to waits is blind to them. -/
theorem BlindWaits.comp (h : BlindWaits V) : BlindWaits fun w => g (V w) where
  childEvents w e := congrArg g (h.childEvents w e)
  pendingWaits w p := congrArg g (h.pendingWaits w p)
  lifecycle w l := congrArg g (h.lifecycle w l)
  missedWake w b := congrArg g (h.missedWake w b)
  waited w l := congrArg g (h.waited w l)
  leftEvents w b := congrArg g (h.leftEvents w b)

/-- What is computed from a view that is blind to sleeps is blind to them. -/
theorem BlindSleeps.comp (h : BlindSleeps V) : BlindSleeps fun w => g (V w) where
  pendingSleeps w p := congrArg g (h.pendingSleeps w p)
  requestId w n := congrArg g (h.requestId w n)
  idSaturated w b := congrArg g (h.idSaturated w b)
  sleepLog w l := congrArg g (h.sleepLog w l)

/-- What is computed from a view that is blind to the active caller is blind to it. -/
theorem BlindCaller.comp (h : BlindCaller V) : BlindCaller fun w => g (V w) :=
  ⟨fun w p => congrArg g (h.caller w p)⟩

end Composition

/-- The trace is no memory. -/
instance : BlindMemory World.trace where
  tick _ _ := rfl
  slots _ _ := rfl
  ledger _ _ := rfl
  vspace _ _ _ := rfl
  tables _ _ _ := rfl
  scratch _ _ _ := rfl
  writeFrame _ _ _ := rfl
  frames _ _ _ := rfl
  refs _ _ := rfl
  doubleFree _ _ := rfl
  mm _ _ _ := rfl
  fileMapLog _ _ := rfl

/-! ### The descriptors of a process -/

/-- The descriptors of a process. -/
def World.filesOf (pid : Nat) (w : World) : Option FilesState := (w.task? pid).map (·.files)

/-- A change of a process record that keeps the descriptors. -/
theorem World.filesOf_modifyTask (w : World) (pid q : Nat) {f : TaskStruct → TaskStruct}
    (hf : ∀ t, (f t).files = t.files) : (w.modifyTask pid f).filesOf q = w.filesOf q := by
  rw [World.filesOf, World.filesOf, World.task?, World.modifyTask, OrdMap.get?_modify]
  by_cases h : q = pid
  · subst h
    rw [if_pos rfl, Option.map_map]
    exact congrArg (Option.map · _) (funext hf)
  · rw [if_neg h]
    rfl

/-- The open descriptors of a process are in a list. -/
def World.OpenIn (pid : Nat) (fds : List Nat) (w : World) : Prop :=
  ∀ fs, w.filesOf pid = some fs → ∀ fd, fd < 2 ^ 32 → fs.fds.get? fd ≠ none → fd ∈ fds

/-- The process has no open descriptor. -/
abbrev World.Closed (pid : Nat) (w : World) : Prop := w.OpenIn pid []

section Commands

variable {γ : Type} {V : World → γ}

/-! ### Services -/

/-- A call that is answered returns the answer and uses up one tick. -/
theorem run_ext_ok {w : World} (h : (w.env w.tick).err = none) :
    ext.run w = (.ok (w.env w.tick), { w with tick := w.tick + 1 }) := by
  simp [ext, h]

/-- A call that is refused returns the error, and the refusal is marked. -/
theorem run_ext_error {w : World} {e : Err} (h : (w.env w.tick).err = some e) :
    ext.run w = (.error e, { w with tick := w.tick + 1, refused := true }) := by
  simp [ext, h]

/-- A call to a service shows in nothing but the tick and the mark of a refusal. -/
@[simp] theorem ext_frames [h : BlindCaps V] : Frames V ext := by
  intro w
  unfold ext
  dsimp only
  split
  · exact (h.refused { w with tick := w.tick + 1 } true).trans (h.tick w _)
  · exact h.tick w _

/-- A refusal of the server itself shows in nothing but its mark. -/
@[simp] theorem refuse_frames [h : BlindCaps V] {α : Type} (e : Err) :
    Frames V (refuse e : M α) :=
  Frames.bind (fun w => h.refused w true) fun _ => Frames.throw e

/-- The rule of a refusal. -/
theorem refuse_triple {α : Type} {P : World → Prop} {Q : α → World → Prop} {E : Err → World → Prop}
    {e : Err} (h : ∀ w, P w → E e { w with refused := true }) : Triple P (refuse e) Q E :=
  Triple.bind (R := fun _ => E e) (Triple.modify h) fun _ => Triple.throw fun _ hE => hE

/-- An event shows in the trace only. -/
@[simp] theorem emit_frames [h : BlindTrace V] (e : Event) : Frames V (emit e) :=
  fun w => h.trace w _

/-- The lookup of a process changes nothing. -/
@[simp] theorem getProcess_frames (pid : Nat) : Frames V (getProcess pid) := by simp [getProcess]

/-- The lookup of a process that is there returns its record. -/
theorem run_getProcess {w : World} {pid : Nat} {t : TaskStruct} (h : w.task? pid = some t) :
    (getProcess pid).run w = (.ok t, w) := by
  rw [getProcess, run_gets_bind, h]
  rfl

/-- The process that a lookup returns is there. -/
theorem getProcess_task {P : World → Prop} (pid : Nat) :
    Triple P (getProcess pid) (fun t w => P w ∧ w.task? pid = some t) (fun _ => P) := by
  refine Triple.bind (R := fun o w => P w ∧ w.task? pid = o)
    (Triple.gets fun w h => ⟨h, rfl⟩) fun o => ?_
  exact Triple.getSome (fun t w ho h => ⟨h.1, h.2.trans ho⟩) fun w _ h => h.1

/-- A change of a memory state shows there only. -/
@[simp] theorem modifyMm_frames [h : BlindMm V] (pid : Nat) (f : MmState → MmState) :
    Frames V (modifyMm pid f) := fun w => h.mm w pid f

/-- What is logged of a file mapping shows in that log only. -/
@[simp] theorem logFileMap_frames [h : BlindMaps V] (e : FileMapEvent) : Frames V (logFileMap e) :=
  fun w => h.fileMapLog w _

/-- A change of a signal state shows there only. -/
@[simp] theorem modifySignal_frames [h : BlindSignals V] (pid : Nat)
    (f : SignalStruct → SignalStruct) : Frames V (modifySignal pid f) := fun w => h.signal w pid f

/-- A change of a descriptor table shows there only. -/
@[simp] theorem modifyFiles_frames [h : BlindFiles V] (pid : Nat) (f : FilesState → FilesState) :
    Frames V (modifyFiles pid f) := fun w => h.files w pid f

/-- A slot that is allocated shows in the slots only. -/
@[simp] theorem cspaceAlloc_frames [h : BlindCaps V] : Frames V cspaceAlloc := by
  unfold cspaceAlloc
  refine Frames.bind ext_frames fun a => Frames.bind (Frames.gets _) fun free => ?_
  exact Frames.ite (Frames.bind (fun w => h.slots w _) fun _ => Frames.pure _) (refuse_frames _)

/-- A slot that is freed shows in the slots only. -/
@[simp] theorem cspaceFree_frames [h : BlindCaps V] (slot : Nat) : Frames V (cspaceFree slot) :=
  fun w => h.slots w _

/-- A new frame shows in the frames only. -/
@[simp] theorem resAllocPage_frames [h : BlindFrames V] (pages slot : Nat) :
    Frames V (resAllocPage pages slot) :=
  Frames.bind ext_frames fun _ => fun w => h.frames w _ _

/-- A frame that is freed shows in the frames and the slots only. -/
@[simp] theorem freeFrame_frames [h : BlindFrames V] (slot : Nat) :
    Frames V (freeFrame slot) := by
  intro w
  let w₁ := { w with doubleFree := w.doubleFree || (w.frames slot).isNone }
  let w₂ := { w₁ with frames := fun s => if s = slot then none else w.frames s }
  calc V { w₂ with slots := w.slots.erase slot } = V w₂ := h.slots w₂ _
    _ = V w₁ := h.frames w₁ slot none
    _ = V w := h.doubleFree w _

/-- A page that is mapped shows in the page tables only. -/
@[simp] theorem vspaceMap_frames [h : BlindTables V] (pid slot vaddr : Nat) (perms : Perms)
    (pages : Nat) : Frames V (vspaceMap pid slot vaddr perms pages) :=
  Frames.bind ext_frames fun _ => fun w => h.vspace w pid fun vs => vs.map slot vaddr perms pages

/-- A range that is unmapped shows in the page tables only. -/
@[simp] theorem vspaceUnmap_frames [h : BlindTables V] (pid vaddr bytes : Nat) :
    Frames V (vspaceUnmap pid vaddr bytes) :=
  Frames.bind ext_frames fun _ => fun w => h.vspace w pid fun vs => vs.unmap vaddr bytes

/-- A scratch window that is mapped shows in the scratch mappings only. -/
@[simp] theorem mapScratch_frames [h : BlindScratch V] (slot : Nat) (perms : Perms) (pages : Nat) :
    Frames V (mapScratch slot perms pages) := by
  unfold mapScratch
  refine Frames.bind ext_frames fun a => Frames.bind (Frames.gets _) fun used => ?_
  exact Frames.ite (refuse_frames _) (Frames.bind (fun w => h.scratch w _ _) fun _ => Frames.pure _)

/-- A scratch window that is unmapped shows in the scratch mappings only. -/
@[simp] theorem unmapScratch_frames [h : BlindScratch V] (base : Nat) :
    Frames V (unmapScratch base) :=
  Frames.bind ext_frames fun _ => fun w => h.scratch w _ _

/-- A store through a scratch window shows in the bytes only. -/
@[simp] theorem writeScratch_frames [h : BlindBytes V] (base : Nat) (f : Nat → UInt8 → UInt8) :
    Frames V (writeScratch base f) := by
  intro w
  simp only [writeScratch, run_modify]
  split
  · rfl
  · exact h.writeFrame w _ f

/-- A copy between scratch windows shows in the bytes only. -/
@[simp] theorem copyScratch_frames [BlindBytes V] (src offset dst n : Nat) :
    Frames V (copyScratch src offset dst n) := by simp [copyScratch]

/-- Bytes that fill a scratch window show in the bytes only. -/
@[simp] theorem fillScratch_frames [BlindBytes V] (base n : Nat) (byte : Nat → UInt8) :
    Frames V (fillScratch base n byte) := writeScratch_frames base _

/-! ### Reference counters and the ledger -/

/-- Another user of a frame shows in the counters of frames only. -/
@[simp] theorem retainFrameCap_frames [h : BlindFrames V] (slot : Nat) :
    Frames V (retainFrameCap slot) := fun w => h.refs w _

/-- One user less of a frame shows in the frames and their counters only. -/
@[simp] theorem releaseFrameCap_frames [h : BlindFrames V] (slot : Nat) :
    Frames V (releaseFrameCap slot) := by
  unfold releaseFrameCap
  refine Frames.bind (Frames.gets _) fun count => ?_
  split
  · exact Frames.pure _
  · exact Frames.ite (Frames.bind (fun w => h.refs w _) fun _ => Frames.pure _)
      (Frames.bind (fun w => h.refs w _) fun _ => Frames.pure _)

section Ledger

variable (pid : Nat) [hl : BlindLedger V pid]

/-- A change of the ledger of a process shows in its ledger only. -/
@[simp] theorem modifyLedger_frames (f : ProcessLedger → ProcessLedger) :
    Frames V (modifyLedger pid f) := fun w => hl.own w _

/-- A frame that is recorded shows in the ledger only. -/
@[simp] theorem ledgerRecordFrameAlloc_frames (slot : Nat) :
    Frames V (ledgerRecordFrameAlloc pid slot) := modifyLedger_frames pid _

/-- A frame that is struck off shows in the ledger only. -/
@[simp] theorem ledgerRecordFrameFree_frames (slot : Nat) :
    Frames V (ledgerRecordFrameFree pid slot) := modifyLedger_frames pid _

/-- A page table that is recorded shows in the ledger only. -/
@[simp] theorem ledgerRecordPagetableAlloc_frames (slot : Nat) :
    Frames V (ledgerRecordPagetableAlloc pid slot) := modifyLedger_frames pid _

/-- A page table that is struck off shows in the ledger only. -/
@[simp] theorem ledgerRecordPagetableFree_frames (slot : Nat) :
    Frames V (ledgerRecordPagetableFree pid slot) := modifyLedger_frames pid _

omit hl in
/-- The ledger of a process that is taken away shows in the ledger only. -/
@[simp] theorem ledgerTakeProcess_frames [h : BlindSlots V] : Frames V (ledgerTakeProcess pid) :=
  fun w => h.ledger w _

/-- A frame that its process releases shows in the frames and in its ledger only. -/
@[simp] theorem releaseProcessFrameSlot_frames [BlindFrames V] (slot : Nat) :
    Frames V (releaseProcessFrameSlot pid slot) :=
  Frames.bind (releaseFrameCap_frames slot) fun last => by simp

/-! ### Page tables -/

/-- A page table that its process releases shows in the slots and in its ledger only. -/
@[simp] theorem releasePagetableSlot_frames [BlindCaps V] (slot : Nat) :
    Frames V (releasePagetableSlot pid slot) := by
  unfold releasePagetableSlot
  exact Frames.bind (Frames.attempt ext_frames) fun r => by simp

omit hl in
/-- A change of the recorded intermediate tables shows there only. -/
@[simp] theorem modifyTask_tables_frames [h : BlindPaths V]
    (f : TaskStruct → OrdMap (Nat ×ₗ Nat) Nat) :
    Frames V (modifyTask pid fun t =>
      { t with mm := { t.mm with intermediatePageTables := f t } }) :=
  fun w => h.tables w pid f

/-- The intermediate tables that a process releases show in the slots, in its record and in its
ledger only. -/
@[simp] theorem releaseProcessIntermediatePageTables_frames [BlindPaths V] :
    Frames V (releaseProcessIntermediatePageTables pid) := by
  unfold releaseProcessIntermediatePageTables
  exact Frames.bind (by simp) fun t =>
    Frames.bind (modifyTask_tables_frames pid fun _ => _) fun _ => by simp

omit hl in
/-- An intermediate table that is recorded shows in the record and the ledger of its process
only. -/
@[simp] theorem recordIntermediatePageTable_frames [BlindPaths V] (level path cap : Nat) :
    Frames V (recordIntermediatePageTable pid level path cap) :=
  modifyTask_tables_frames pid _

/-- A new intermediate table shows in the slots, the record and the ledger only. -/
@[simp] theorem addIntermediatePageTable_frames [BlindPaths V] (level path : Nat) :
    Frames V (addIntermediatePageTable pid level path) := by
  unfold addIntermediatePageTable
  refine Frames.bind (by simp) fun slot => Frames.bind (by simp) fun _ =>
    Frames.bind (by simp) fun _ => Frames.bind (by simp) fun r => ?_
  split <;> simp

/-- The intermediate tables above a page show in the slots, the record and the ledger only. -/
@[simp] theorem ensureIntermediatePageTablesWithLeaf_frames [BlindPaths V]
    (pageAddr leaf : Nat) :
    Frames V (ensureIntermediatePageTablesWithLeaf pid pageAddr leaf) := by
  unfold ensureIntermediatePageTablesWithLeaf
  exact Frames.bind (by simp) fun t => Frames.bind (by simp) fun l => by simp

/-- The intermediate tables above a range show in the slots, the record and the ledger only. -/
@[simp] theorem ensureRange_frames [BlindPaths V] (vaddr pages n i : Nat) :
    Frames V (ensureRange pid vaddr pages n i) := by
  induction n generalizing i with
  | zero => simp [ensureRange]
  | succ n ih =>
    unfold ensureRange
    refine Frames.ite (Frames.ite ?_ ?_) (Frames.pure _)
    · exact Frames.bind (by simp) fun _ => ih _
    · exact Frames.bind (by simp) fun _ => ih _

/-- A frame that is mapped into a process shows in its page tables and their records only. -/
@[simp] theorem mapProcessFrame_frames [BlindTables V] (slot vaddr : Nat) (perms : Perms)
    (pages : Nat) : Frames V (mapProcessFrame pid slot vaddr perms pages) := by
  unfold mapProcessFrame
  refine Frames.bind (by simp) fun _ => Frames.bind (by simp) fun _ =>
    Frames.bind (by simp) fun r => ?_
  split
  · simp
  · exact Frames.bind (by simp) fun _ => by simp
  · simp

omit hl in
/-- Pages that are unmapped show in the page tables only. -/
@[simp] theorem unmapProcessPages_frames [BlindTables V] (vaddr pages : Nat) :
    Frames V (unmapProcessPages pid vaddr pages) := by simp [unmapProcessPages]

/-- A new page frame shows in the frames and the slots only. -/
@[simp] theorem allocPageFrame_frames [BlindFrames V] : Frames V allocPageFrame := by
  unfold allocPageFrame
  exact Frames.bind (by simp) fun slot => by simp

/-- New page frames show in the frames and the slots only. -/
@[simp] theorem allocPageFrameNoCleanup_frames [BlindFrames V] (pages : Nat) :
    Frames V (allocPageFrameNoCleanup pages) := by
  unfold allocPageFrameNoCleanup
  exact Frames.bind (by simp) fun slot => by simp

/-! ### Splitting an entry -/

section Split

variable [BlindTables V] [BlindBytes V] [BlindFrames V]

omit [BlindTables V] [BlindBytes V] in
/-- The temporary frames of a split that are released show in the frames and the ledger only. -/
@[simp] theorem releaseTempFrameSlots_frames (slots : List Nat) :
    Frames V (releaseTempFrameSlots pid slots) := by simp [releaseTempFrameSlots]

omit [BlindTables V] in
/-- The copies of the pages of an entry show in the frames and their bytes only. -/
@[simp] theorem splitCopyPages_frames (src : Nat) (l slots : List Nat) :
    Frames V (splitCopyPages pid src l slots) := by
  induction l generalizing slots with
  | nil => exact Frames.pure _
  | cons idx rest ih =>
    have hclean : ∀ c : M Unit, Frames V c →
        Frames V (do c; ignore (unmapScratch src); releaseTempFrameSlots pid slots) :=
      fun c hc => Frames.bind hc fun _ => Frames.bind (by simp) fun _ => by simp
    unfold splitCopyPages
    refine Frames.bind (Frames.onError (by simp) fun _ => by simp) fun slot => ?_
    refine Frames.bind (Frames.onError (by simp) fun _ => hclean _ (by simp)) fun _ => ?_
    refine Frames.bind (by simp) fun _ =>
      Frames.bind (Frames.onError (by simp) fun _ => hclean _ (by simp)) fun dst => ?_
    exact Frames.bind (by simp) fun _ => Frames.bind (by simp) fun _ => ih _

omit [BlindBytes V] in
/-- The pages that a split maps show in the page tables only. -/
@[simp] theorem splitMapPages_frames (m : MemoryMap) (slots : List Nat)
    (l : List (Nat × Nat)) : Frames V (splitMapPages pid m slots l) := by
  induction l with
  | nil => exact Frames.pure _
  | cons e rest ih =>
    refine Frames.bind (Frames.onError (by simp) fun _ => ?_) fun _ => ih
    exact Frames.bind (by simp) fun _ => Frames.bind (by simp) fun _ => by simp

end Split

/-! ### User copies -/

/-- The choice of a window touches only the pool. -/
@[simp] theorem pickSlot_frames : Frames (fun s : Session => V s.1) pickSlot := by
  unfold pickSlot
  refine Frames.bind (by simp) fun pool => ?_
  split
  · simp
  · exact Frames.bind (fun _ => rfl) fun _ => by simp

/-- A window that is given up shows in the scratch mappings only. -/
@[simp] theorem unmapSlot_frames [BlindScratch V] (slot : Nat) :
    Frames (fun s : Session => V s.1) (unmapSlot slot) := by
  unfold unmapSlot
  refine Frames.bind (by simp) fun e => Frames.whenSome fun e => ?_
  exact Frames.bind (fun _ => rfl) fun _ =>
    Frames.bind (Frames.inFst (unmapScratch_frames _)) fun _ => fun _ => rfl

/-- A window for an entry shows in the scratch mappings only. -/
@[simp] theorem acquire_frames [BlindScratch V] (m : MemoryMap) (perms : Perms) :
    Frames (fun s : Session => V s.1) (acquire m perms) := by
  unfold acquire
  refine Frames.bind (by simp) fun pool => ?_
  split
  · exact Frames.bind (fun _ => rfl) fun _ => by simp
  · refine Frames.bind (by simp) fun slot => Frames.bind (by simp) fun busy =>
      Frames.bind (by simp) fun _ => ?_
    exact Frames.bind (Frames.inFst (mapScratch_frames _ _ _)) fun scratch =>
      Frames.bind (fun _ => rfl) fun _ => by simp

/-- The end of a session shows in the scratch mappings only. -/
@[simp] theorem releaseAll_frames [BlindScratch V] :
    Frames (fun s : Session => V s.1) releaseAll :=
  Frames.forEach fun i => Frames.bind (by simp) fun busy => by simp

/-- A session that leaves the view alone. -/
theorem withUserSession_frames [BlindScratch V] {α : Type} {f : S α}
    (h : Frames (fun s : Session => V s.1) f) : Frames V (withUserSession f) := by
  unfold withUserSession
  exact Frames.bind (Frames.runWith h) fun r =>
    Frames.bind (Frames.runWith releaseAll_frames) fun c => by simp

/-- A page that a stack grows by shows in the memory of its process only. -/
@[simp] theorem growStackPage_frames [BlindTables V] [BlindFrames V] [BlindMm V] (vaddr : Nat) :
    Frames V (growStackPage pid vaddr) := by
  unfold growStackPage
  exact Frames.bind (by simp) fun slot => Frames.bind (by simp) fun _ =>
    Frames.bind (by simp) fun _ => by simp

/-- The growth of a stack shows in the memory of its process only. -/
@[simp] theorem tryGrowStackForUserAddr_frames [BlindTables V] [BlindFrames V] [BlindMm V]
    (userAddr : Nat) :
    Frames V (tryGrowStackForUserAddr pid userAddr) := by
  unfold tryGrowStackForUserAddr
  refine Frames.bind (by simp) fun task => ?_
  dsimp only
  repeat' first | apply Frames.ite | simp

/-- A lookup shows only where the stack grew for it. -/
@[simp] theorem lookupMap_frames [BlindTables V] [BlindFrames V] [BlindMm V]
    (userAddr : Nat) (required : Perms) :
    Frames V (lookupMap pid userAddr required) := by
  have hgrow : Frames V (lookupOrGrow pid userAddr) := by
    unfold lookupOrGrow
    refine Frames.bind (by simp) fun task => ?_
    split
    · simp
    · refine Frames.bind (by simp) fun grown => ?_
      split <;> simp
  unfold lookupMap
  exact Frames.bind hgrow fun found => Frames.bind (by simp) fun m => by simp

/-- The loop that copies from a process shows in memory only. -/
@[simp] theorem copyFromUserLoop_frames [BlindSpace V] (fuel cursor n : Nat) :
    Frames (fun s : Session => V s.1) (copyFromUserLoop pid fuel cursor n) := by
  induction fuel generalizing cursor n with
  | zero => simp [copyFromUserLoop]
  | succ fuel ih =>
    unfold copyFromUserLoop
    refine Frames.ite (by simp) (Frames.bind (Frames.inFst (lookupMap_frames _ _ _)) fun m => ?_)
    refine Frames.ite (by simp) (Frames.bind (by simp) fun scratch => ?_)
    exact Frames.bind (by simp) fun bytes => Frames.bind (ih _ _) fun rest => by simp

/-- A copy from a process inside a session shows in memory only. -/
@[simp] theorem sessionCopyFromUser_frames [BlindSpace V] (userSrc n : Nat) :
    Frames (fun s : Session => V s.1) (sessionCopyFromUser pid userSrc n) := by
  simp [sessionCopyFromUser]

/-- A copy from a process shows in memory only. -/
@[simp] theorem copyFromUser_frames [BlindSpace V] (userSrc n : Nat) :
    Frames V (copyFromUser pid userSrc n) :=
  withUserSession_frames (sessionCopyFromUser_frames pid userSrc n)

/-- The loop that copies to a process shows in memory only. -/
@[simp] theorem copyToUserLoop_frames [BlindSpace V] (fuel cursor : Nat) (src : List UInt8) :
    Frames (fun s : Session => V s.1) (copyToUserLoop pid fuel cursor src) := by
  induction fuel generalizing cursor src with
  | zero => simp [copyToUserLoop]
  | succ fuel ih =>
    unfold copyToUserLoop
    refine Frames.ite (by simp) (Frames.bind (Frames.inFst (lookupMap_frames _ _ _)) fun m => ?_)
    refine Frames.ite (by simp) (Frames.bind (by simp) fun scratch => ?_)
    exact Frames.bind (Frames.inFst (writeScratch_frames _ _)) fun _ => ih _ _

/-- A copy to a process shows in memory only. -/
@[simp] theorem copyToUser_frames [BlindSpace V] (userDst : Nat) (src : List UInt8) :
    Frames V (copyToUser pid userDst src) := by
  refine withUserSession_frames ?_
  simp [sessionCopyToUser]

/-- Zeros that are written to a process show in memory only. -/
@[simp] theorem writeZerosToUser_frames [BlindSpace V] (userPtr len : Nat) :
    Frames V (writeZerosToUser pid userPtr len) := by
  have hloop : ∀ rounds done, Frames V (writeZerosLoop pid userPtr len rounds done) := by
    intro rounds
    induction rounds with
    | zero => intro done; simp [writeZerosLoop]
    | succ rounds ih => intro done; simp [writeZerosLoop, ih]
  simp [writeZerosToUser, hloop]

end Ledger

end Commands

end Ape
