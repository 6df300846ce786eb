import Ape.Proofs.Endpoints
import Ape.Proofs.Munmap
import Ape.Proofs.Masks

/-!
# `Ape.Proofs.Forks`: the child of a `fork` is a snapshot of its parent

`do_fork` copies the table of the parent, installs every entry for the child, and marks the
writable ones as copy-on-write in both processes. `MmState.shared` is the table with these
marks, and `foldl_markCow` and `Sound.forked_eq` say that parent and child end with it. A mark
changes nothing that a process has at an address (`viewAt_shared`).

The loop over the entries works on the table of the parent while it walks through an older copy
of it. `Shared` says what the loop leaves behind: the marks, and one more use of every frame that
an entry names, however many entries name it. `forkMaps_view` is the induction over the entries.

A lazy entry has no frame, and `do_fork` copies it without a mark. So the marks are a fact about
the entries with a frame (`fork_snapshots_parent`), and `fork_leaves_lazy_entry_unmarked` is a
writable entry of the child that is not marked.
-/

set_option autoImplicit false

namespace Ape

open Ape.Lib Cmd

/-! ### The table with the marks -/

/-- The entry of a child has the record of the entry of its parent. -/
@[simp] theorem forkedEntry_recordAt (m : MemoryMap) (a : Nat) :
    (forkedEntry m).recordAt a = m.recordAt a := by
  rw [forkedEntry]
  split <;> rfl

namespace MmState

variable {mm : MmState}

/-- The tables after a fork: the writable entries are marked as copy-on-write. -/
def shared (mm : MmState) : MmState :=
  { mm with memoryMaps := mm.memoryMaps.mapValues forkedEntry }

/-- The marks change nothing that a process has at an address. -/
theorem viewAt_shared (mm : MmState) (frames : Nat → Option Frame) (a : Nat) :
    mm.shared.viewAt frames a = mm.viewAt frames a := by
  have hentry : entryAt (mm.memoryMaps.mapValues forkedEntry) a
      = (entryAt mm.memoryMaps a).map forkedEntry :=
    entryAt_mapValues forkedEntry_vaddr forkedEntry_size mm.memoryMaps a
  have hmapped : mm.shared.recordAt .mapped a = mm.recordAt .mapped a := by
    show (entryAt (mm.memoryMaps.mapValues forkedEntry) a).map (·.recordAt a)
      = (entryAt mm.memoryMaps a).map (·.recordAt a)
    rw [hentry, Option.map_map]
    exact congrArg (Option.map · _) (funext fun m => forkedEntry_recordAt m a)
  have hbyte : mm.shared.byteAt frames a = mm.byteAt frames a := by
    show (entryAt (mm.memoryMaps.mapValues forkedEntry) a).bind _
      = (entryAt mm.memoryMaps a).bind _
    rw [hentry]
    cases entryAt mm.memoryMaps a with
    | none => rfl
    | some m => simp
  rw [viewAt, viewAt, hmapped, hbyte]
  rfl

/-- Every writable entry with a frame is marked as copy-on-write. -/
def WritesCopied (mm : MmState) : Prop :=
  ∀ k m, mm.memoryMaps.get? k = some m → m.flags.write = true → m.cow = true

/-- An entry of the table has a frame and at least one page. -/
theorem Sound.frame_pages (h : mm.Sound) {k : Nat} {m : MemoryMap}
    (hk : mm.memoryMaps.get? k = some m) : ¬ (m.frameCap = 0 ∨ m.pages = 0) := by
  have hsize := (h.paged .mapped k m hk).2.2
  have heq := h.pages_eq hk
  rintro (hcap | hpages)
  · exact h.frame k m hk hcap
  · rw [hpages] at heq
    exact absurd heq (by simp [MemoryMap.span] at hsize ⊢; omega)

/-- In the shared tables every writable page is marked. -/
theorem Sound.shared_writesCopied (h : mm.Sound) : mm.shared.WritesCopied := by
  intro k m hk hwrite
  rw [show mm.shared.memoryMaps = mm.memoryMaps.mapValues forkedEntry from rfl,
    OrdMap.get?_mapValues] at hk
  obtain ⟨e, he, rfl⟩ := Option.map_eq_some_iff.mp hk
  rw [forkedEntry, if_neg (h.frame_pages he)] at hwrite ⊢
  show (e.cow || e.flags.write) = true
  have hflags : e.flags.write = true := hwrite
  rw [hflags, Bool.or_true]

/-- The child starts with the marked tables. -/
theorem Sound.forked_eq (h : mm.Sound) : mm.forked = mm.shared := by
  have hmapped : mm.memoryMaps.values.foldl
      (fun maps m => maps.insert m.vaddr (forkedEntry m)) OrdMap.empty
        = mm.memoryMaps.mapValues forkedEntry :=
    OrdMap.foldl_insert_values forkedEntry (h.key .mapped)
  have hlazy : mm.lazyMemoryMaps.values.foldl
      (fun maps m => maps.insert m.vaddr m) OrdMap.empty = mm.lazyMemoryMaps := by
    refine (OrdMap.foldl_insert_values (fun m => m) (h.key .lazily)).trans ?_
    exact OrdMap.ext_get? fun k => by rw [OrdMap.get?_mapValues, Option.map_id']; rfl
  rw [forked, shared, hmapped, hlazy]

/-- The addresses of the entries that a fork marks. -/
def writtenTo (maps : List MemoryMap) : List Nat := (maps.filter (·.flags.write)).map (·.vaddr)

/-- The marks are put on one after the other. -/
theorem foldl_markCow (l : List Nat) (mm : MmState) :
    l.foldl markCow mm = { mm with
      memoryMaps := l.foldl (fun maps j => maps.modify j fun e => { e with cow := true })
        mm.memoryMaps } := by
  induction l generalizing mm with
  | nil => rfl
  | cons j rest ih =>
    rw [List.foldl_cons, ih]
    rfl

/-- The parent ends with the marked tables. -/
theorem Sound.foldl_markCow_eq (h : mm.Sound) :
    (writtenTo mm.memoryMaps.values).foldl markCow mm = mm.shared := by
  rw [foldl_markCow, shared]
  refine congrArg (fun maps => { mm with memoryMaps := maps }) (OrdMap.ext_get? fun k => ?_)
  rw [OrdMap.get?_foldl_modify (f := fun e : MemoryMap => { e with cow := true }) fun _ => rfl,
    OrdMap.get?_mapValues]
  cases hk : mm.memoryMaps.get? k with
  | none => simp
  | some m =>
    have hforked : forkedEntry m = { m with cow := m.cow || m.flags.write } :=
      if_neg (h.frame_pages hk)
    -- the entry is the only one that is filed at its address
    have hmem : k ∈ writtenTo mm.memoryMaps.values ↔ m.flags.write = true := by
      constructor
      · intro hin
        obtain ⟨e, he, hek⟩ := List.mem_map.mp hin
        obtain ⟨hval, hwrite⟩ := List.mem_filter.mp he
        obtain ⟨j, hj⟩ := OrdMap.mem_values.mp hval
        rw [← h.key .mapped j e hj, hek, hk] at hj
        rw [Option.some.inj hj]
        exact hwrite
      · intro hwrite
        refine List.mem_map.mpr ⟨m, List.mem_filter.mpr ⟨OrdMap.mem_values.mpr ⟨k, hk⟩, hwrite⟩, ?_⟩
        exact h.key .mapped k m hk
    rw [Option.map_some, Option.map_some, hforked]
    by_cases hwrite : m.flags.write = true
    · rw [if_pos (hmem.mpr hwrite), hwrite, Bool.or_true]
    · rw [if_neg (fun hin => hwrite (hmem.mp hin)), Bool.eq_false_of_not_eq_true hwrite,
        Bool.or_false]

end MmState

/-! ### The loop over the entries -/

/-- The loop of `do_fork` has gone through these entries: those that can be written are marked
in the table of the process, and each of their frames that was not retained before has one more
use. -/
structure Shared (pid : Nat) (maps : List MemoryMap) (retained : List Nat) (v v' : MapView) :
    Prop where
  frames : v'.frames = v.frames
  mms : ∀ q, v'.mms.get? q =
    if q = pid then (v.mms.get? q).map ((MmState.writtenTo maps).foldl MmState.markCow)
    else v.mms.get? q
  refs : ∀ s, v'.refs s =
    if s ∈ maps.map (·.frameCap) ∧ s ∉ retained then some ((v.refs s).getD 1 + 1) else v.refs s

namespace Shared

variable {pid : Nat} {m : MemoryMap} {maps : List MemoryMap} {retained : List Nat}
  {v v' : MapView}

/-- Nothing was shared yet. -/
theorem nil (v : MapView) : Shared pid [] retained v v where
  frames := rfl
  mms q := by by_cases hq : q = pid <;> simp [hq, MmState.writtenTo]
  refs s := by simp

end Shared

namespace MapView

/-- The view with one more use of the frame in a slot. -/
def retain (v : MapView) (slot : Nat) : MapView :=
  { v with refs := fun s => if s = slot then some ((v.refs slot).getD 1 + 1) else v.refs s }

/-- The view with the mark on the entry at `vaddr`. -/
def markCow (v : MapView) (pid vaddr : Nat) : MapView :=
  { v with mms := v.mms.modify pid (·.markCow vaddr) }

/-- The view after one entry of the loop. -/
def share (v : MapView) (pid : Nat) (m : MemoryMap) (retained : List Nat) : MapView :=
  let v₁ := if m.frameCap ∈ retained then v else v.retain m.frameCap
  if m.flags.write then v₁.markCow pid m.vaddr else v₁

variable {pid : Nat} {m : MemoryMap} {retained : List Nat} {v : MapView}

/-- To share an entry leaves the frames. -/
@[simp] theorem share_frames : (v.share pid m retained).frames = v.frames := by
  by_cases hret : m.frameCap ∈ retained <;> by_cases hwrite : m.flags.write = true <;>
    simp [share, retain, markCow, hret, hwrite]

/-- To share an entry marks it in the table of its process if it is writable. -/
theorem share_mms (q : Nat) : (v.share pid m retained).mms.get? q =
    if q = pid ∧ m.flags.write = true then (v.mms.get? q).map (·.markCow m.vaddr)
    else v.mms.get? q := by
  have hbefore : (if m.frameCap ∈ retained then v else v.retain m.frameCap).mms = v.mms := by
    by_cases hret : m.frameCap ∈ retained <;> simp [retain, hret]
  by_cases hwrite : m.flags.write = true
  · by_cases hq : q = pid <;>
      simp [share, markCow, hwrite, hbefore, OrdMap.get?_modify, hq]
  · simp [share, hwrite, hbefore]

/-- To share an entry counts one more use of its frame, once for each frame. -/
theorem share_refs (s : Nat) : (v.share pid m retained).refs s =
    if s = m.frameCap ∧ s ∉ retained then some ((v.refs s).getD 1 + 1) else v.refs s := by
  have hafter : (v.share pid m retained).refs
      = (if m.frameCap ∈ retained then v else v.retain m.frameCap).refs := by
    by_cases hwrite : m.flags.write = true <;> simp [share, markCow, hwrite]
  rw [hafter]
  by_cases hs : s = m.frameCap
  · subst hs
    by_cases hret : m.frameCap ∈ retained <;> simp [retain, hret]
  · by_cases hret : m.frameCap ∈ retained <;> simp [retain, hret, hs]

end MapView

/-- The entries after the first one see its frame as retained. -/
theorem Shared.cons {pid : Nat} {m : MemoryMap} {maps : List MemoryMap} {retained : List Nat}
    {v v' : MapView}
    (h : Shared pid maps (m.frameCap :: retained) (v.share pid m retained) v') :
    Shared pid (m :: maps) retained v v' where
  frames := h.frames.trans MapView.share_frames
  mms q := by
    rw [h.mms q, MapView.share_mms, MmState.writtenTo, MmState.writtenTo]
    by_cases hq : q = pid
    · by_cases hwrite : m.flags.write = true
      · rw [if_pos hq, if_pos hq, if_pos ⟨hq, hwrite⟩, Option.map_map,
          List.filter_cons_of_pos (p := fun e : MemoryMap => e.flags.write) hwrite]
        rfl
      · rw [if_pos hq, if_pos hq, if_neg (fun hin => hwrite hin.2),
          List.filter_cons_of_neg (p := fun e : MemoryMap => e.flags.write) hwrite]
    · rw [if_neg hq, if_neg hq, if_neg (fun hin => hq hin.1)]
  refs s := by
    rw [h.refs s, MapView.share_refs]
    by_cases hs : s = m.frameCap
    · subst hs
      by_cases hret : m.frameCap ∈ retained <;> simp [hret]
    · simp [hs]

/-- The loop, on entries that each have a frame and a page. -/
theorem forkMaps_view (pid childPid : Nat) (maps : List MemoryMap) (retained : List Nat)
    (hmaps : ∀ m ∈ maps, ¬ (m.frameCap = 0 ∨ m.pages = 0)) (v : MapView) :
    Triple (fun w => w.mapView = v) (forkMaps pid childPid maps retained)
      (fun _ w => Shared pid maps retained v w.mapView) (fun _ _ => True) := by
  induction maps generalizing retained v with
  | nil =>
    refine Triple.pure fun w hw => ?_
    rw [hw]
    exact Shared.nil v
  | cons m rest ih =>
    rw [forkMaps, if_neg (hmaps m List.mem_cons_self)]
    refine Triple.bind (blind_step (mapProcessFrame_frames _ _ _ _ _)) fun _ => ?_
    refine Triple.bind (blind_step (Frames.when (Frames.bind (by simp) fun _ => by simp)))
      fun _ => ?_
    -- the frame is retained, and then the entry is marked
    let v₁ : MapView := if m.frameCap ∈ retained then v else v.retain m.frameCap
    refine Triple.bind (R := fun _ w => w.mapView = v₁) ?_ fun _ => ?_
    · refine Triple.when (fun hnew => Triple.modify ?_) ?_
      · intro w hw
        rw [show v₁ = v.retain m.frameCap from if_neg hnew, ← hw]
        rfl
      · intro w hold hw
        rw [show v₁ = v from if_pos (not_not.mp hold)]
        exact hw
    refine Triple.bind (R := fun _ w => w.mapView = v.share pid m retained) ?_ fun _ => ?_
    · refine Triple.when (fun hwrite => Triple.modify ?_) ?_
      · intro w hw
        rw [show v.share pid m retained = v₁.markCow pid m.vaddr from if_pos hwrite, ← hw]
        exact congrArg (MapView.mk · w.frames w.frameCapRefs) (w.mms_modifyMm pid _)
      · intro w hread hw
        rw [show v.share pid m retained = v₁ from if_neg hread]
        exact hw
    · exact (ih (m.frameCap :: retained) (fun e he => hmaps e (List.mem_cons_of_mem _ he))
        (v.share pid m retained)).post fun _ _ h => h.cons

/-! ### The child -/

/-- What a child takes over besides what it has at its addresses: the bounds of its regions, the
descriptors, the directories, the blocked signals and the signal actions. No signal is pending. -/
structure TaskStruct.Inherits (child parent : TaskStruct) : Prop where
  bounds : ∃ A B, child.mm.state = { parent.mm.state with memoryMaps := A, lazyMemoryMaps := B }
  files : child.files = parent.files
  fs : child.fs = parent.fs
  blocked : child.signal.signalBlocked = parent.signal.signalBlocked
  actions : child.signalActions = parent.signalActions
  pending : child.signal.signalPending = 0

/-- A child whose record is the one that `do_fork` makes, apart from its memory. -/
theorem TaskStruct.Inherits.of_record {t child parent : TaskStruct}
    (hmask : parent.signal.Maskable) (hstate : t.mm.state = parent.mm.state.shared)
    (hrecord : t.withoutMm = (child.inherit parent).withoutMm) : t.Inherits parent := by
  -- the mask has no unblockable bit, so clearing these bits changes nothing
  have hmasked : parent.signal.signalBlocked &&& ~~~SIGNAL_UNBLOCKABLE_MASK
      = parent.signal.signalBlocked := by
    have hnone : parent.signal.signalBlocked &&& SIGNAL_UNBLOCKABLE_MASK = 0 := hmask
    ext i hi
    have hbit := congrArg (·.getLsbD i) hnone
    simp only [BitVec.getLsbD_and] at hbit
    cases ha : parent.signal.signalBlocked.getLsbD i <;>
      cases hb : SIGNAL_UNBLOCKABLE_MASK.getLsbD i <;> simp_all
  have hkept : (child.inherit parent).files = parent.files ∧ (child.inherit parent).fs = parent.fs ∧
      (child.inherit parent).signalActions = parent.signalActions ∧
      (child.inherit parent).signal.signalPending = 0 ∧
      (child.inherit parent).signal.signalBlocked
        = parent.signal.signalBlocked &&& ~~~SIGNAL_UNBLOCKABLE_MASK := by
    rw [TaskStruct.inherit]
    split <;> exact ⟨rfl, rfl, rfl, rfl, rfl⟩
  obtain ⟨hfiles, hfs, hactions, hpending, hblocked⟩ := hkept
  have hsame : ∀ {β : Type} (f : TaskStruct → β), (∀ t, f t.withoutMm = f t) →
      f t = f (child.inherit parent) := by
    intro β f hf
    rw [← hf t, hrecord, hf]
  -- the tables come from the fork, and the other fields from the record
  refine ⟨⟨_, _, hstate⟩, ?_, ?_, ?_, ?_, ?_⟩
  · exact (hsame (·.files) fun _ => rfl).trans hfiles
  · exact (hsame (·.fs) fun _ => rfl).trans hfs
  · exact (hsame (·.signal.signalBlocked) fun _ => rfl).trans (hblocked.trans hmasked)
  · exact (hsame (·.signalActions) fun _ => rfl).trans hactions
  · exact (hsame (·.signal.signalPending) fun _ => rfl).trans hpending

/-- What a fork leaves of the memory, and of the record of the child. -/
structure Forked (pid child : Nat) (parent : TaskStruct) (v : MapView)
    (v' : MapView × Option TaskStruct) : Prop where
  frames : v'.1.frames = v.frames
  own : v'.1.mms.get? pid = some parent.mm.state.shared
  copy : v'.1.mms.get? child = some parent.mm.state.shared
  refs : ∀ s, v'.1.refs s = if s ∈ parent.mm.state.memoryMaps.values.map (·.frameCap)
    then some ((v.refs s).getD 1 + 1) else v.refs s
  record : ∃ l c, v'.2 = some ((TaskStruct.new l child pid c).inherit parent).withoutMm

/-- What a fork changes of the memory, and the record of the child. -/
def World.forkView (child : Nat) (w : World) : MapView × Option TaskStruct :=
  (w.mapView, w.recordOf child)

instance (child : Nat) : BlindSlots (World.forkView child) where
  tick _ _ := rfl
  slots _ _ := rfl
  ledger _ _ := rfl

instance (child : Nat) : BlindTrace (World.forkView child) where
  trace _ _ := rfl

/-- What a fork reads before it registers the child. -/
def World.beforeFork (w : World) : OrdMap Nat TaskStruct × MapView × Nat :=
  (w.tasks, w.mapView, w.nextPid)

instance : BlindSlots World.beforeFork where
  tick _ _ := rfl
  slots _ _ := rfl
  ledger _ _ := rfl

/-- The registration of the child leaves the memory of the other processes alone. -/
theorem registerProcess_view {w₀ : World} {pid hostPid cnode : Nat} {parent : TaskStruct}
    (hparent : w₀.task? pid = some parent) (hnext : w₀.live w₀.nextPid = false) :
    Triple (fun w => w.beforeFork = w₀.beforeFork) (registerProcess pid hostPid cnode)
      (fun child w => child = w₀.nextPid ∧ w.task? pid = some parent ∧
        w.mapView.frames = w₀.frames ∧ w.mapView.refs = w₀.frameCapRefs ∧
        ∃ l c, w.recordOf child = some (TaskStruct.new l child pid c).withoutMm)
      (fun _ _ => True) := by
  intro w hw
  refine ⟨?_, fun _ _ => trivial⟩
  intro child hok
  have htasks : w.tasks = w₀.tasks := congrArg (·.1) hw
  have hmap : w.mapView = w₀.mapView := congrArg (·.2.1) hw
  have hpid : w.nextPid = w₀.nextPid := congrArg (·.2.2) hw
  -- the child takes the next number, which is not the one of its parent
  have hchild : child = w.nextPid := by
    cases hok
    rfl
  subst hchild
  have hne : pid ≠ w.nextPid := by
    rintro rfl
    rw [hpid] at hparent
    rw [World.live, hparent] at hnext
    cases hnext
  have htask : ((registerProcess pid hostPid cnode).run w).2.task? w.nextPid
      = some (seedInitialPagetablePaths w.layout (TaskStruct.new w.layout w.nextPid pid cnode)) :=
    OrdMap.get?_insert_self _ _ _
  refine ⟨hpid, ?_, congrArg MapView.frames hmap, congrArg MapView.refs hmap, w.layout, cnode, ?_⟩
  · refine (OrdMap.get?_insert_ne _ _ hne).trans ?_
    rw [htasks]
    exact hparent
  · rw [World.recordOf, htask]
    rfl

/-- What a child takes over does not depend on the memory it had. -/
theorem TaskStruct.inherit_withoutMm (child parent : TaskStruct) :
    (child.inherit parent).withoutMm = (child.withoutMm.inherit parent).withoutMm := by
  rw [TaskStruct.inherit, TaskStruct.inherit]
  split <;> rfl

/-- The child takes over the table and the record of the parent. -/
theorem inherited_forked {pid child : Nat} {parent : TaskStruct} (hsound : parent.mm.state.Sound)
    {w₁ w : World} (hne : child ≠ pid) (hstate : w₁.mms.get? pid = some parent.mm.state)
    (hchild : ∃ l c, w₁.recordOf child = some (TaskStruct.new l child pid c).withoutMm)
    (hshared : Shared pid parent.mm.state.memoryMaps.values [] w₁.mapView w.mapView)
    (hrecord : w.recordOf child = w₁.recordOf child) :
    Forked pid child parent w₁.mapView ((w.inherited child parent pid).forkView child) := by
  -- the child gets a copy of the table that the loop marked
  have hmms : (w.inherited child parent pid).mms
      = w.mms.modify child fun _ => parent.mm.state.forked :=
    OrdMap.mapValues_modify (fun t : TaskStruct => t.mm.state) w.tasks child fun t =>
      t.inherit_state parent
  obtain ⟨l, c, hnew⟩ := hchild
  rw [← hrecord] at hnew
  obtain ⟨t, ht, heq⟩ := World.task?_of_record hnew
  have htask : (w.inherited child parent pid).task? child = some (t.inherit parent) := by
    show (w.tasks.modify child (·.inherit parent)).get? child = _
    rw [OrdMap.get?_modify, if_pos rfl, show w.tasks.get? child = some t from ht]
    rfl
  refine ⟨hshared.frames, ?_, ?_, ?_, l, c, ?_⟩
  -- the table of the parent, the one of the child, the counters, and the record
  · show (w.inherited child parent pid).mms.get? pid = _
    rw [hmms, OrdMap.get?_modify, if_neg (Ne.symm hne), show w.mms.get? pid = _ from
      hshared.mms pid, if_pos rfl, show w₁.mapView.mms.get? pid = _ from hstate, Option.map_some,
      hsound.foldl_markCow_eq]
  · show (w.inherited child parent pid).mms.get? child = _
    rw [hmms, OrdMap.get?_modify, if_pos rfl, World.get?_mms, ht, hsound.forked_eq]
    rfl
  · intro s
    refine (hshared.refs s).trans ?_
    simp
  · show (w.inherited child parent pid).recordOf child = _
    rw [World.recordOf, htask, Option.map_some, TaskStruct.inherit_withoutMm, heq,
      ← TaskStruct.inherit_withoutMm]

/-- What follows the registration. -/
theorem forkInto_view {pid child : Nat} {parent : TaskStruct} (hsound : parent.mm.state.Sound)
    {w₁ : World} (hne : child ≠ pid) (hparent : w₁.task? pid = some parent)
    (hchild : ∃ l c, w₁.recordOf child = some (TaskStruct.new l child pid c).withoutMm) :
    Triple (fun w => w = w₁) (forkInto pid child)
      (fun r w => r = child ∧ Forked pid child parent w₁.mapView (w.forkView child))
      (fun _ _ => True) := by
  have hvalues : ∀ m ∈ parent.mm.state.memoryMaps.values, ¬ (m.frameCap = 0 ∨ m.pages = 0) := by
    intro m hm
    obtain ⟨k, hk⟩ := OrdMap.mem_values.mp hm
    exact hsound.frame_pages hk
  have hstate : w₁.mms.get? pid = some parent.mm.state := by
    rw [World.get?_mms, hparent]
    rfl
  rw [forkInto]
  refine Triple.bind (R := fun t w => t = parent ∧ w = w₁) ?_ ?_
  · rintro w rfl
    rw [run_getProcess hparent]
    refine ⟨fun a ha => ?_, fun _ _ => trivial⟩
    cases ha
    exact ⟨rfl, rfl⟩
  intro t
  refine Triple.of_pre fun w₂ h₂ => ?_
  obtain ⟨rfl, rfl⟩ := h₂
  -- the loop marks the entries of the parent, and leaves the record of the child alone
  let S (v : MapView × Option TaskStruct) : Prop :=
    Shared pid t.mm.state.memoryMaps.values [] w₂.mapView v.1 ∧ v.2 = w₂.recordOf child
  refine Triple.bind (R := fun _ w => S (w.forkView child)) ?_ fun _ => ?_
  · refine ((forkMaps_view pid child _ [] hvalues w₂.mapView).and
      (blind_step (V := World.recordOf child) (v := w₂.recordOf child)
        (forkMaps_frames _ _ _ _))).imp ?_ (fun _ w h => ⟨h.1, h.2⟩) fun _ _ _ => trivial
    rintro w rfl
    exact ⟨rfl, rfl⟩
  refine Triple.bind (R := fun _ w => S (w.forkView child))
    (blind_keeps (getProcess_frames child) S) fun _ => ?_
  refine Triple.bind (R := fun _ w => Forked pid child t w₂.mapView (w.forkView child))
    (Triple.modify ?_) fun _ => ?_
  · intro w hw
    exact inherited_forked hsound hne hstate hchild hw.1 hw.2
  let F := Forked pid child t w₂.mapView
  refine Triple.bind (R := fun _ w => F (w.forkView child))
    (blind_keeps (Frames.when (Frames.bind (fun _ => rfl) fun _ => fun _ => rfl)) F) fun _ => ?_
  refine Triple.bind (R := fun _ w => F (w.forkView child))
    (blind_keeps (getProcess_frames pid) F) fun _ => ?_
  refine Triple.bind (R := fun _ w => F (w.forkView child))
    (blind_keeps (getProcess_frames child) F) fun _ => ?_
  refine Triple.bind (R := fun _ w => F (w.forkView child)) (blind_keeps (by simp) F) fun _ => ?_
  refine Triple.bind (R := fun _ w => F (w.forkView child)) (blind_keeps (by simp) F) fun _ => ?_
  refine Triple.bind (R := fun _ w => F (w.forkView child)) (blind_keeps (by simp [tcbResume]) F)
    fun _ => ?_
  exact Triple.pure fun w hw => ⟨rfl, hw⟩

/-- `do_fork`, from a state in which the next process id is not in use. -/
theorem doFork_view {w₀ : World} {pid : Nat} {parent : TaskStruct}
    (hparent : w₀.task? pid = some parent) (hsound : parent.mm.state.Sound)
    (hnext : w₀.live w₀.nextPid = false) :
    Triple (fun w => w = w₀) (doFork pid)
      (fun child w => Forked pid child parent w₀.mapView (w.forkView child)) (fun _ _ => True) := by
  let K (w : World) : Prop := w.beforeFork = w₀.beforeFork
  refine Triple.pre (K := K) ?_ fun w hw => congrArg World.beforeFork hw
  refine Triple.bind (R := fun _ => K) (blind_step (by simp)) fun host => ?_
  refine Triple.bind (R := fun _ => K) (blind_step (by simp)) fun cnode => ?_
  refine Triple.bind (R := fun _ => K) (blind_step (by simp)) fun _ => ?_
  refine Triple.bind (registerProcess_view hparent hnext) fun child => Triple.of_pre fun w₁ h₁ => ?_
  obtain ⟨hchild, htask, hframes, hrefs, hrecord⟩ := h₁
  have hne : child ≠ pid := by
    rintro rfl
    rw [← hchild, World.live, hparent] at hnext
    cases hnext
  refine (forkInto_view hsound hne htask hrecord).post fun r w h => ?_
  obtain ⟨rfl, hforked⟩ := h
  -- the memory of the other processes is what it was before the registration
  refine ⟨hforked.frames.trans hframes, hforked.own, hforked.copy, ?_, hforked.record⟩
  intro s
  rw [hforked.refs s, hrefs]
  rfl

/-- Process `child` of `w` is a snapshot of the process `pid` of `w₀`, whose record was `parent`:
both have what `parent` had at every address, with the writable entries marked as copy-on-write,
the child takes over the rest, and each frame of `parent` has one more holder. -/
structure World.Snapshot (w₀ : World) (pid : Nat) (parent : TaskStruct) (child : Nat)
    (w : World) : Prop where
  own : ∃ t, w.task? pid = some t ∧ t.mm.state.WritesCopied ∧
    ∀ a, t.mm.state.viewAt w.frames a = parent.mm.state.viewAt w₀.frames a
  copy : ∃ t, w.task? child = some t ∧ t.mm.state.WritesCopied ∧ t.Inherits parent ∧
    ∀ a, t.mm.state.viewAt w.frames a = parent.mm.state.viewAt w₀.frames a
  holders : ∀ s, 0 < parent.mm.state.uses s → w.mapView.holders s = w₀.mapView.holders s + 1

/-- A `fork` of a process with a sound table makes a snapshot of it. -/
theorem fork_snapshots_parent {w : World} {pid child : Nat} {parent : TaskStruct}
    (hinv : FrameInv w) (hparent : w.task? pid = some parent) (hsound : parent.mm.state.Sound)
    (hmask : parent.signal.Maskable) (hnext : w.live w.nextPid = false)
    (hok : ((doFork pid).run w).1 = .ok child) :
    w.Snapshot pid parent child ((doFork pid).run w).2 := by
  have hforked := (doFork_view hparent hsound hnext w rfl).1 child hok
  obtain ⟨w', hw'⟩ : ∃ w', ((doFork pid).run w).2 = w' := ⟨_, rfl⟩
  rw [hw'] at hforked ⊢
  have hframes : w'.frames = w.frames := hforked.frames
  have hstate : w.mms.get? pid = some parent.mm.state := by
    rw [World.get?_mms, hparent]
    rfl
  -- a shared table reads as the one that it was made from, since no frame changed
  have hview : ∀ {t : TaskStruct}, t.mm.state = parent.mm.state.shared → ∀ a,
      t.mm.state.viewAt w'.frames a = parent.mm.state.viewAt w.frames a := by
    intro t ht a
    rw [ht, hframes, MmState.viewAt_shared]
  refine ⟨?_, ?_, ?_⟩
  -- the parent's table, the child's, and one reference more for each frame
  · have hown : w'.mms.get? pid = some parent.mm.state.shared := hforked.own
    rw [World.get?_mms] at hown
    obtain ⟨t, ht, hshared⟩ := Option.map_eq_some_iff.mp hown
    refine ⟨t, ht, ?_, hview hshared⟩
    rw [hshared]
    exact hsound.shared_writesCopied
  · have hcopy : w'.mms.get? child = some parent.mm.state.shared := hforked.copy
    rw [World.get?_mms] at hcopy
    obtain ⟨t, ht, hshared⟩ := Option.map_eq_some_iff.mp hcopy
    obtain ⟨l, c, hrecord⟩ := hforked.record
    have hsame : t.withoutMm = ((TaskStruct.new l child pid c).inherit parent).withoutMm := by
      have hrec : w'.recordOf child = some t.withoutMm := by
        rw [World.recordOf, ht]
        rfl
      exact Option.some.inj (hrec.symm.trans hrecord)
    refine ⟨t, ht, ?_, .of_record hmask hshared hsame, hview hshared⟩
    rw [hshared]
    exact hsound.shared_writesCopied
  · -- the frame belongs to an entry, so it is there and was retained once
    intro s hs
    obtain ⟨k, m, hk, rfl⟩ := MmState.entry_of_uses hs
    have hlive : (w.frames m.frameCap).isSome := hinv.live_frame hstate hk
    have hmem : m.frameCap ∈ parent.mm.state.memoryMaps.values.map (·.frameCap) :=
      List.mem_map.mpr ⟨m, OrdMap.mem_values.mpr ⟨k, hk⟩, rfl⟩
    have hrefs : w'.mapView.refs m.frameCap = some ((w.mapView.refs m.frameCap).getD 1 + 1) :=
      (hforked.refs m.frameCap).trans (if_pos hmem)
    have hbefore : w.mapView.holders m.frameCap = (w.mapView.refs m.frameCap).getD 1 := if_pos hlive
    have hafter : w'.mapView.holders m.frameCap = (w'.mapView.refs m.frameCap).getD 1 := by
      refine if_pos ?_
      show (w'.frames m.frameCap).isSome = true
      rw [hframes]
      exact hlive
    rw [hafter, hbefore, hrefs, Option.getD_some]

/-- `init` forks after it has mapped two pages. -/
theorem fork_snapshots_parent_sampleMapped :
    ∃ parent, sampleMapped.task? 1 = some parent ∧ parent.mm.state.Sound ∧
      (parent.mm.state.lookupMemoryMap 0x20000000).isSome ∧
      sampleMapped.Snapshot 1 parent 2 ((doFork 1).run sampleMapped).2 := by
  obtain ⟨mm, hmm, hsound⟩ := @World.sound_of_check sampleMapped 1 (by decide +kernel)
  rw [World.get?_mms] at hmm
  obtain ⟨parent, hparent, rfl⟩ := Option.map_eq_some_iff.mp hmm
  refine ⟨parent, hparent, hsound, ?_, ?_⟩
  · have hpage : (sampleMapped.task? 1).map
        (fun t => (t.mm.state.lookupMemoryMap 0x20000000).isSome) = some true := by decide +kernel
    rw [hparent] at hpage
    exact Option.some.inj hpage
  · refine fork_snapshots_parent sampleMapped_reachable.frameInv hparent hsound ?_
      sampleMapped_reachable.next_not_live (by decide +kernel)
    refine sampleMapped_reachable.maskable 1 parent.signal ?_
    rw [World.signalsOf, hparent]
    rfl

/-- `init` has mapped a page of a file that it may write to. -/
def sampleLazy : World := sampleOpened.after (.syscall 1 (.mmap 0x20000000 4096 3 2 3 0))

/-- The sample with a lazy page is reachable. -/
theorem sampleLazy_reachable : Reachable sampleLazy :=
  sampleOpened_reachable.after (by decide +kernel)

/-- The entry of the file page has no frame yet. The child gets it as it is: it may be written
to, and it is not marked as copy-on-write. -/
theorem fork_leaves_lazy_entry_unmarked :
    Reachable sampleLazy ∧ (∃ mm, sampleLazy.mms.get? 1 = some mm ∧ mm.Sound) ∧
      ((doFork 1).run sampleLazy).1 = .ok 2 ∧
      ¬ ∀ t, ((doFork 1).run sampleLazy).2.task? 2 = some t → ∀ l k m,
        (t.mm.state.table l).get? k = some m → m.flags.write = true → m.cow = true := by
  refine ⟨sampleLazy_reachable, @World.sound_of_check sampleLazy 1 (by decide +kernel),
    by decide +kernel, ?_⟩
  intro hall
  have hentry : (((doFork 1).run sampleLazy).2.task? 2).bind (fun t =>
      (t.mm.state.lazyMemoryMaps.get? 0x20000000).map fun m => (m.flags.write, m.cow))
        = some (true, false) := by decide +kernel
  obtain ⟨t, ht, hlazy⟩ := Option.bind_eq_some_iff.mp hentry
  obtain ⟨m, hm, hmarks⟩ := Option.map_eq_some_iff.mp hlazy
  have hcow := hall t ht .lazily 0x20000000 m hm (congrArg Prod.fst hmarks)
  rw [show m.cow = false from congrArg Prod.snd hmarks] at hcow
  cases hcow

end Ape
