import Ape.Proofs.Delivery

/-!
# `Ape.Proofs.Observe`: what is counted from outside, and the services that agree to everything

`World.eventCount` counts the events of one kind in the trace. Only the commands that emit such an
event change the count, so a statement that something happens, or that it does not, is one about
two counts. `agreeing` is the behaviour of the services in which no call fails. A command does not
change how the services behave (`World.env` is blind to everything).
-/

set_option autoImplicit false

namespace Ape

open Ape.Lib Cmd

/-! ### The trace -/

instance : BlindSignals World.trace := ⟨fun _ _ _ => rfl, fun _ _ => rfl, fun _ _ => rfl⟩

instance : BlindRecords World.trace where
  hostPidMap _ _ := rfl
  stale _ _ := rfl
  record _ _ _ _ := rfl
  stopLog _ _ := rfl
  stopSkewed _ _ := rfl

instance : BlindWaits World.trace :=
  ⟨fun _ _ => rfl, fun _ _ => rfl, fun _ _ => rfl, fun _ _ => rfl, fun _ _ => rfl, fun _ _ => rfl⟩

instance : BlindSleeps World.trace :=
  ⟨fun _ _ => rfl, fun _ _ => rfl, fun _ _ => rfl, fun _ _ => rfl⟩

instance : BlindFiles World.trace where
  cloexecLog _ _ := rfl
  positionSplit _ _ := rfl
  endpoints _ _ := rfl
  doubleClose _ _ := rfl
  asyncFree _ _ := rfl
  asyncRegions _ _ := rfl
  asyncVaddr _ _ := rfl
  iouring _ _ := rfl
  fdOverflow _ _ := rfl
  earlyRecycle _ _ := rfl
  files _ _ _ := rfl

/-! ### Counting events -/

/-- How many events of a kind the trace has. -/
def World.eventCount (p : Event → Bool) (w : World) : Nat := w.trace.countP p

/-- No quiet event is of the kind. -/
class Event.Loud (p : Event → Bool) : Prop where
  quiet : ∀ (e : Event) [e.Quiet], p e = false

/-- The event stops the thread of the process. -/
def Event.stops (pid : Nat) (e : Event) : Bool := e.suspension == some pid

instance (pid : Nat) : Event.Loud (Event.stops pid) where
  quiet e he := by rw [Event.stops, he.awake]; rfl

/-- The event takes the signal out of the pending set of the process to deliver it. -/
def Event.takes (pid signum : Nat) : Event → Bool
  | .dequeued p s _ => p == pid && s == signum
  | _ => false

instance (pid signum : Nat) : Event.Loud (Event.takes pid signum) where
  quiet e he := by
    have hquiet := he.quiet
    cases e <;> first | rfl | cases hquiet

/-- The event makes the thread of the process run. -/
def Event.resumes (pid : Nat) (e : Event) : Bool := e == .resumed pid

section Count

variable (p : Event → Bool)

instance : BlindSlots (World.eventCount p) :=
  BlindSlots.comp (V := World.trace) (·.countP p) inferInstance

instance : BlindSignals (World.eventCount p) :=
  BlindSignals.comp (V := World.trace) (·.countP p) inferInstance

instance : BlindRecords (World.eventCount p) :=
  BlindRecords.comp (V := World.trace) (·.countP p) inferInstance

instance : BlindWaits (World.eventCount p) :=
  BlindWaits.comp (V := World.trace) (·.countP p) inferInstance

instance : BlindSleeps (World.eventCount p) :=
  BlindSleeps.comp (V := World.trace) (·.countP p) inferInstance

instance : BlindFiles (World.eventCount p) :=
  BlindFiles.comp (V := World.trace) (·.countP p) inferInstance

instance : BlindMemory (World.eventCount p) :=
  BlindMemory.comp (V := World.trace) (·.countP p) inferInstance

variable {p}

/-- An event of another kind leaves the count alone. -/
theorem emit_eventCount {e : Event} (h : p e = false) : Frames (World.eventCount p) (emit e) := by
  intro w
  show (w.trace ++ [e]).countP p = w.trace.countP p
  rw [List.countP_append, List.countP_singleton, h]
  rfl

/-- An event of the kind counts. -/
theorem eventCount_emit {e : Event} (h : p e = true) (w : World) :
    ((emit e).run w).2.eventCount p = w.eventCount p + 1 := by
  show (w.trace ++ [e]).countP p = w.trace.countP p + 1
  rw [List.countP_append, List.countP_singleton, h]
  rfl

variable (n : Nat)

instance [h : Event.Loud p] : TraceKeeps fun w => w.eventCount p = n where
  emit e _ := (emit_eventCount (h.quiet e)).keeps (· = n)

instance (pid signum : Nat) : EndKeeps fun w => w.eventCount (Event.takes pid signum) = n where
  ended _ _ := (emit_eventCount rfl).keeps (· = n)

instance (pid signum : Nat) : SuspendKeeps fun w => w.eventCount (Event.takes pid signum) = n where
  suspended _ := (emit_eventCount rfl).keeps (· = n)

instance (pid signum : Nat) : QueuedKeeps fun w => w.eventCount (Event.takes pid signum) = n where
  queued _ _ := (emit_eventCount rfl).keeps (· = n)

instance (pid : Nat) : QueuedKeeps fun w => w.eventCount (Event.stops pid) = n where
  queued _ _ := (emit_eventCount rfl).keeps (· = n)

instance : BlindProcesses fun w => w.eventCount p = n :=
  ⟨fun _ _ => rfl, fun _ _ => rfl, fun _ _ => rfl, fun _ _ => rfl, fun _ _ => rfl⟩

end Count

/-! A count never goes down. -/

section Growth

variable (p : Event → Bool) (n : Nat)

/-- An event takes none away. -/
theorem emit_eventCount_le (e : Event) : Keeps (fun w => n ≤ w.eventCount p) (emit e) := by
  intro w h
  show n ≤ (w.trace ++ [e]).countP p
  rw [List.countP_append]
  exact Nat.le_add_right_of_le h

instance : BlindSlots fun w => n ≤ w.eventCount p :=
  BlindSlots.comp (V := World.eventCount p) _ inferInstance

instance : BlindSignals fun w => n ≤ w.eventCount p :=
  BlindSignals.comp (V := World.eventCount p) _ inferInstance

instance : BlindRecords fun w => n ≤ w.eventCount p :=
  BlindRecords.comp (V := World.eventCount p) _ inferInstance

instance : BlindWaits fun w => n ≤ w.eventCount p :=
  BlindWaits.comp (V := World.eventCount p) _ inferInstance

instance : BlindSleeps fun w => n ≤ w.eventCount p :=
  BlindSleeps.comp (V := World.eventCount p) _ inferInstance

instance : BlindMemory fun w => n ≤ w.eventCount p :=
  BlindMemory.comp (V := World.eventCount p) _ inferInstance

instance : TraceKeeps fun w => n ≤ w.eventCount p := ⟨fun e _ => emit_eventCount_le p n e⟩

instance : SuspendKeeps fun w => n ≤ w.eventCount p := ⟨fun _ => emit_eventCount_le p n _⟩

instance : QueuedKeeps fun w => n ≤ w.eventCount p := ⟨fun _ _ => emit_eventCount_le p n _⟩

end Growth

section Extension

variable (l es : List Event)

/-- The list is `l` and what came after it, with the events `es` among that. -/
def extended (trace : List Event) : Prop := ∃ post, trace = l ++ post ∧ es ⊆ post

/-- The trace is `l` and what came after it, with the events `es` among that. -/
def World.Extends (w : World) : Prop := extended l es w.trace

instance : BlindSlots (World.Extends l es) := BlindSlots.comp (V := World.trace) _ inferInstance

instance : BlindSignals (World.Extends l es) := BlindSignals.comp (V := World.trace) _ inferInstance

instance : BlindRecords (World.Extends l es) := BlindRecords.comp (V := World.trace) _ inferInstance

instance : BlindWaits (World.Extends l es) := BlindWaits.comp (V := World.trace) _ inferInstance

instance : BlindSleeps (World.Extends l es) := BlindSleeps.comp (V := World.trace) _ inferInstance

instance : BlindFiles (World.Extends l es) := BlindFiles.comp (V := World.trace) _ inferInstance

instance : BlindMemory (World.Extends l es) := BlindMemory.comp (V := World.trace) _ inferInstance

instance : BlindProcesses (World.Extends l es) :=
  ⟨fun _ _ => rfl, fun _ _ => rfl, fun _ _ => rfl, fun _ _ => rfl, fun _ _ => rfl⟩

/-- Every event extends the trace. -/
theorem emit_extends (e : Event) : Keeps (World.Extends l es) (emit e) := by
  rintro w ⟨post, htrace, hes⟩
  refine ⟨post ++ [e], ?_, fun d hd => List.mem_append_left _ (hes hd)⟩
  show w.trace ++ [e] = l ++ (post ++ [e])
  rw [htrace, List.append_assoc]

instance : TraceKeeps (World.Extends l es) := ⟨fun e _ => emit_extends l es e⟩

instance : EndKeeps (World.Extends l es) := ⟨fun _ _ => emit_extends l es _⟩

instance : QueuedKeeps (World.Extends l es) := ⟨fun _ _ => emit_extends l es _⟩

end Extension

/-! ### The actions of the processes -/

/-- The signal actions of a process. -/
def World.actionsOf (w : World) (pid : Nat) : Option (OrdMap Nat SignalAction) :=
  (w.task? pid).map (·.signalActions)

/-- The actions of a process that is there. -/
theorem World.actionsOf_of_task {w : World} {pid : Nat} {t : TaskStruct}
    (h : w.task? pid = some t) :
    w.actionsOf pid = some t.signalActions := by rw [World.actionsOf, h]; rfl

/-- The process identifiers, the actions and the events of a state. -/
structure ActionView where
  nextPid : Nat
  actions : Nat → Option (OrdMap Nat SignalAction)
  trace : List Event

/-- The next number, the actions of the processes and the trace. -/
def World.actionView (w : World) : ActionView := ⟨w.nextPid, w.actionsOf, w.trace⟩

/-- A change of a process record that keeps the actions. -/
theorem World.actionView_modifyTask (w : World) (pid : Nat) {f : TaskStruct → TaskStruct}
    (hf : ∀ t, (f t).signalActions = t.signalActions) :
    (w.modifyTask pid f).actionView = w.actionView := by
  refine congrArg (ActionView.mk w.nextPid · w.trace) (funext fun q => ?_)
  simp only [World.actionsOf, World.task?, World.modifyTask]
  rw [OrdMap.get?_modify]
  split
  · rw [Option.map_map]
    exact congrArg (Option.map · _) (funext hf)
  · rfl

instance : BlindSlots World.actionView where
  tick _ _ := rfl
  slots _ _ := rfl
  ledger _ _ := rfl

instance : BlindSignals World.actionView :=
  ⟨fun w pid _ => w.actionView_modifyTask pid fun _ => rfl, fun _ _ => rfl, fun _ _ => rfl⟩

instance : BlindHosts World.actionView := ⟨fun _ _ => rfl, fun _ _ => rfl⟩

instance : BlindRest World.actionView where
  state w pid _ := w.actionView_modifyTask pid fun _ => rfl
  tty w pid _ := w.actionView_modifyTask pid fun _ => rfl

instance : BlindStops World.actionView :=
  ⟨fun w pid _ _ => w.actionView_modifyTask pid fun _ => rfl, fun _ _ => rfl, fun _ _ => rfl⟩

instance : BlindJobs World.actionView :=
  ⟨fun w pid _ _ _ => w.actionView_modifyTask pid fun _ => rfl⟩

instance : BlindWaits World.actionView :=
  ⟨fun _ _ => rfl, fun _ _ => rfl, fun _ _ => rfl, fun _ _ => rfl, fun _ _ => rfl, fun _ _ => rfl⟩

instance : BlindSleeps World.actionView :=
  ⟨fun _ _ => rfl, fun _ _ => rfl, fun _ _ => rfl, fun _ _ => rfl⟩

instance : BlindCaller World.actionView := ⟨fun _ _ => rfl⟩

instance : BlindFiles World.actionView where
  files w pid _ := w.actionView_modifyTask pid fun _ => rfl
  cloexecLog _ _ := rfl
  positionSplit _ _ := rfl
  endpoints _ _ := rfl
  doubleClose _ _ := rfl
  asyncFree _ _ := rfl
  asyncRegions _ _ := rfl
  asyncVaddr _ _ := rfl
  iouring _ _ := rfl
  fdOverflow _ _ := rfl
  earlyRecycle _ _ := rfl

instance : BlindMemory World.actionView where
  vspace w pid _ := w.actionView_modifyTask pid fun _ => rfl
  tables w pid _ := w.actionView_modifyTask pid fun _ => rfl
  scratch _ _ _ := rfl
  writeFrame _ _ _ := rfl
  frames _ _ _ := rfl
  refs _ _ := rfl
  doubleFree _ _ := rfl
  mm w pid _ := w.actionView_modifyTask pid fun _ => rfl
  fileMapLog _ _ := rfl

/-! ### The behaviour of the services -/

/-- The services that refuse nothing. -/
def agreeing : Nat → Ext := fun _ => ⟨none, 0, fun _ => 0⟩

/-- A call succeeds when the services refuse nothing. -/
theorem run_ext_agreeing {w : World} (h : w.env = agreeing) :
    ∃ a, ext.run w = (.ok a, { w with tick := w.tick + 1 }) := by
  have hnone : (w.env w.tick).err = none := by rw [h]; rfl
  exact ⟨w.env w.tick, run_ext_ok hnone⟩

end Ape
