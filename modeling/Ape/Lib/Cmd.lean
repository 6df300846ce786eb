import Mathlib.Logic.Function.Basic

/-!
# `Ape.Lib.Cmd`: commands that change a state and may fail

`Cmd σ ε α` is a command over a state `σ`. It ends with a value `α` or with an error `ε`,
and in both cases with a state: an error does not undo what the command did before it. The
combinators are the control structures of a language with `Result` and `?`. `getSome` is
`ok_or(e)?`, `ignore` is `let _ = c`, and `onError` is the cleanup of an error branch that
returns the same error.

`Triple P c Q E` is the pair of postconditions: from `P`, the command ends in `Q` when it
succeeds and in `E` when it fails. `Keeps I c` says that `I` survives both ends, and
`Frames f c` says that the command leaves the part `f` of the state as it was.

The rules follow the combinators, one rule for each. A loop over a list has one rule, whose
invariant is indexed by the items still to come.
-/

set_option autoImplicit false

namespace Ape.Lib

/-- A command over the state `σ`: a run returns a value or an error, and a state. -/
structure Cmd (σ ε α : Type) where
  run : σ → Except ε α × σ

namespace Cmd

variable {σ ε α β γ : Type}

instance : Monad (Cmd σ ε) where
  pure a := ⟨fun s => (.ok a, s)⟩
  bind c k := ⟨fun s =>
    match c.run s with
    | (.ok a, s') => (k a).run s'
    | (.error e, s') => (.error e, s')⟩

/-- Fail with `e`. -/
def throw (e : ε) : Cmd σ ε α := ⟨fun s => (.error e, s)⟩

/-- Read a part of the state. -/
def gets (f : σ → α) : Cmd σ ε α := ⟨fun s => (.ok (f s), s)⟩

/-- Change the state. -/
def modify (f : σ → σ) : Cmd σ ε Unit := ⟨fun s => (.ok (), f s)⟩

/-- The value of an option, or the error `e`. -/
def getSome (o : Option α) (e : ε) : Cmd σ ε α :=
  match o with
  | some a => pure a
  | none => throw e

/-- The value or the error of a computation without effects. -/
def ofExcept (r : Except ε α) : Cmd σ ε α :=
  match r with
  | .ok a => pure a
  | .error e => throw e

/-- Run a command if `p` holds. -/
def when (p : Prop) [Decidable p] (c : Cmd σ ε Unit) : Cmd σ ε Unit := if p then c else pure ()

/-- Run `f` on the value of an option, if there is one. -/
def whenSome (o : Option α) (f : α → Cmd σ ε Unit) : Cmd σ ε Unit :=
  match o with
  | some a => f a
  | none => pure ()

/-- The outcome of a command as a value. This command does not fail. -/
def attempt (c : Cmd σ ε α) : Cmd σ ε (Except ε α) := ⟨fun s => (.ok (c.run s).1, (c.run s).2)⟩

/-- Run a command and drop its outcome. -/
def ignore (c : Cmd σ ε α) : Cmd σ ε Unit := ⟨fun s => (.ok (), (c.run s).2)⟩

/-- Run a command. When it fails, run the cleanup `h` and fail with the same error. -/
def onError (c : Cmd σ ε α) (h : ε → Cmd σ ε Unit) : Cmd σ ε α := ⟨fun s =>
  match c.run s with
  | (.ok a, s') => (.ok a, s')
  | (.error e, s') => (.error e, ((h e).run s').2)⟩

/-- Run a command for each item of a list, in order. The first error ends the loop. -/
def forEach (l : List β) (f : β → Cmd σ ε Unit) : Cmd σ ε Unit :=
  match l with
  | [] => pure ()
  | b :: bs => do f b; forEach bs f

/-- A command over the first part of a pair of states. -/
def inFst {τ : Type} (c : Cmd σ ε α) : Cmd (σ × τ) ε α := ⟨fun s =>
  ((c.run s.1).1, ((c.run s.1).2, s.2))⟩

/-- Run a command with a local state that starts at `t`. The outcome and the last local state
are the value. -/
def runWith {τ : Type} (c : Cmd (σ × τ) ε α) (t : τ) : Cmd σ ε (Except ε α × τ) := ⟨fun s =>
  (.ok ((c.run (s, t)).1, (c.run (s, t)).2.2), (c.run (s, t)).2.1)⟩

/-! ### Runs

The run of each control structure, by cases on the outcome of its first part. -/

/-- `pure` returns its value in the state it was given. -/
@[simp] theorem run_pure (a : α) (s : σ) : (pure a : Cmd σ ε α).run s = (.ok a, s) := rfl

/-- `throw` fails in the state it was given. -/
@[simp] theorem run_throw (e : ε) (s : σ) : (throw e : Cmd σ ε α).run s = (.error e, s) := rfl

/-- `gets` reads the state and leaves it. -/
@[simp] theorem run_gets (f : σ → α) (s : σ) : (gets f : Cmd σ ε α).run s = (.ok (f s), s) := rfl

/-- `modify` changes the state and returns nothing. -/
@[simp] theorem run_modify (f : σ → σ) (s : σ) :
    (modify f : Cmd σ ε Unit).run s = (.ok (), f s) := rfl

/-- `attempt` always succeeds, with the outcome of the command as its value. -/
@[simp] theorem run_attempt (c : Cmd σ ε α) (s : σ) :
    c.attempt.run s = (.ok (c.run s).1, (c.run s).2) := rfl

/-- `ignore` always succeeds, in the state that the command leaves. -/
@[simp] theorem run_ignore (c : Cmd σ ε α) (s : σ) : c.ignore.run s = (.ok (), (c.run s).2) := rfl

/-- Under a condition that holds, the command runs. -/
theorem when_pos {p : Prop} [Decidable p] (h : p) (c : Cmd σ ε Unit) : when p c = c := if_pos h

/-- Under a condition that fails, nothing is done. -/
theorem when_neg {p : Prop} [Decidable p] (h : ¬ p) (c : Cmd σ ε Unit) : when p c = pure () :=
  if_neg h

/-- A sequence goes on with the second command only when the first one succeeds. -/
theorem run_bind (c : Cmd σ ε α) (k : α → Cmd σ ε β) (s : σ) :
    (c >>= k).run s =
      match c.run s with
      | (.ok a, s') => (k a).run s'
      | (.error e, s') => (.error e, s') := rfl

/-- After a command that succeeds, the rest runs on its value and its state. -/
theorem run_bind_ok {c : Cmd σ ε α} {k : α → Cmd σ ε β} {s s' : σ} {a : α}
    (h : c.run s = (.ok a, s')) : (c >>= k).run s = (k a).run s' := by
  rw [run_bind, h]

/-- After a command that fails, the rest does not run. -/
theorem run_bind_error {c : Cmd σ ε α} {k : α → Cmd σ ε β} {s s' : σ} {e : ε}
    (h : c.run s = (.error e, s')) : (c >>= k).run s = (.error e, s') := by
  rw [run_bind, h]

/-- A command in two parts, and what follows it. -/
theorem bind_bind (c : Cmd σ ε α) (k : α → Cmd σ ε β) (j : β → Cmd σ ε γ) :
    c >>= k >>= j = c >>= fun a => k a >>= j := by
  refine congrArg Cmd.mk (funext fun s => ?_)
  show (c >>= k >>= j).run s = (c >>= fun a => k a >>= j).run s
  rcases hc : c.run s with ⟨e | a, s'⟩
  · rw [run_bind_error (run_bind_error hc), run_bind_error hc]
  · rw [run_bind, run_bind_ok hc, run_bind_ok hc, run_bind]

/-- A function of the value does not change the state. -/
theorem run_map_state (c : Cmd σ ε α) (f : α → β) (s : σ) :
    ((c >>= fun a => pure (f a)).run s).2 = (c.run s).2 := by
  rw [run_bind]
  split <;> simp_all

/-- The value of an option that is there. -/
theorem getSome_bind (a : α) (e : ε) (k : α → Cmd σ ε β) : (getSome (some a) e >>= k) = k a := rfl

/-- The value of a part of the state. -/
theorem run_gets_bind (f : σ → α) (k : α → Cmd σ ε β) (s : σ) :
    (gets f >>= k).run s = (k (f s)).run s := rfl

/-- What follows `modify` runs in the changed state. -/
theorem run_modify_bind (f : σ → σ) (k : Unit → Cmd σ ε β) (s : σ) :
    (modify f >>= k).run s = (k ()).run (f s) := rfl

/-- A command on the first component leaves the second one. -/
theorem run_inFst {τ : Type} (c : Cmd σ ε α) (s : σ) (t : τ) :
    (inFst c : Cmd (σ × τ) ε α).run (s, t) = ((c.run s).1, ((c.run s).2, t)) := rfl

/-- The auxiliary state starts as given, and is returned with the outcome. -/
theorem run_runWith {τ : Type} (c : Cmd (σ × τ) ε α) (t : τ) (s : σ) :
    (runWith c t).run s = (.ok ((c.run (s, t)).1, (c.run (s, t)).2.2), (c.run (s, t)).2.1) := rfl

/-- The handler of errors does not run after a success. -/
theorem run_onError_ok {c : Cmd σ ε α} {h : ε → Cmd σ ε Unit} {s s' : σ} {a : α}
    (hc : c.run s = (.ok a, s')) : (c.onError h).run s = (.ok a, s') := by
  simp [onError, hc]

/-- After an error the handler runs, and the error stays. -/
theorem run_onError_error {c : Cmd σ ε α} {h : ε → Cmd σ ε Unit} {s s' : σ} {e : ε}
    (hc : c.run s = (.error e, s')) : (c.onError h).run s = (.error e, ((h e).run s').2) := by
  simp [onError, hc]

/-! ### Commands that change nothing -/

/-- The command fails here, and leaves the state as it is. -/
def Rejects (c : Cmd σ ε α) (s : σ) : Prop := ∃ e, c.run s = (.error e, s)

namespace Rejects

variable {s : σ}

/-- `throw` is an error in every state. -/
theorem throw (e : ε) : Rejects (Cmd.throw e : Cmd σ ε α) s := ⟨e, rfl⟩

/-- A sequence fails where its first command fails. -/
theorem bind {c : Cmd σ ε β} {k : β → Cmd σ ε α} (h : Rejects c s) : Rejects (c >>= k) s := by
  obtain ⟨e, he⟩ := h
  exact ⟨e, run_bind_error he⟩

/-- What runs first only reads the state. -/
theorem after {c : Cmd σ ε β} {k : β → Cmd σ ε α} {b : β} (hc : c.run s = (.ok b, s))
    (h : Rejects (k b) s) : Rejects (c >>= k) s := by
  obtain ⟨e, he⟩ := h
  exact ⟨e, (run_bind_ok hc).trans he⟩

/-- `getSome` fails where there is no value. -/
theorem getSome {o : Option α} (e : ε) (h : o = none) : Rejects (Cmd.getSome o e) s := by
  subst h
  exact ⟨e, rfl⟩

/-- `ofExcept` fails with the error it is given. -/
theorem ofExcept {r : Except ε α} {e : ε} (h : r = .error e) : Rejects (Cmd.ofExcept r) s := by
  subst h
  exact ⟨e, rfl⟩

/-- A choice fails when each branch that can be taken fails. -/
theorem ite {p : Prop} [Decidable p] {c d : Cmd σ ε α} (hc : p → Rejects c s)
    (hd : ¬ p → Rejects d s) : Rejects (if p then c else d) s := by
  by_cases h : p
  · rw [if_pos h]
    exact hc h
  · rw [if_neg h]
    exact hd h

end Rejects

/-! ### Triples -/

/-- From `P`, the command ends in `Q` when it succeeds and in `E` when it fails. -/
def Triple (P : σ → Prop) (c : Cmd σ ε α) (Q : α → σ → Prop) (E : ε → σ → Prop) : Prop :=
  ∀ s, P s →
    (∀ a, (c.run s).1 = .ok a → Q a (c.run s).2) ∧ (∀ e, (c.run s).1 = .error e → E e (c.run s).2)

namespace Triple

variable {P K : σ → Prop} {Q Q' : α → σ → Prop} {R : β → σ → Prop} {E F : ε → σ → Prop}

/-- The rule of consequence: a weaker precondition and stronger postconditions. -/
theorem imp {c : Cmd σ ε α} (h : Triple K c Q' F) (hP : ∀ s, P s → K s)
    (hQ : ∀ a s, Q' a s → Q a s) (hE : ∀ e s, F e s → E e s) : Triple P c Q E :=
  fun s hs => ⟨fun a ha => hQ a _ ((h s (hP s hs)).1 a ha),
    fun e he => hE e _ ((h s (hP s hs)).2 e he)⟩

/-- The rule of consequence for the precondition alone. -/
theorem pre {c : Cmd σ ε α} (h : Triple K c Q E) (hP : ∀ s, P s → K s) : Triple P c Q E :=
  h.imp hP (fun _ _ hq => hq) (fun _ _ he => he)

/-- The rule of consequence for the postcondition alone. -/
theorem post {c : Cmd σ ε α} (h : Triple P c Q' E) (hQ : ∀ a s, Q' a s → Q a s) : Triple P c Q E :=
  h.imp (fun _ hp => hp) hQ (fun _ _ he => he)

/-- The rule of consequence for the errors alone. -/
theorem errors {c : Cmd σ ε α} (h : Triple P c Q F) (hE : ∀ e s, F e s → E e s) : Triple P c Q E :=
  h.imp (fun _ hp => hp) (fun _ _ hq => hq) hE

/-- The value of `pure` has to satisfy the postcondition already. -/
theorem pure {a : α} (h : ∀ s, P s → Q a s) : Triple P (Pure.pure a : Cmd σ ε α) Q E := by
  intro s hs
  refine ⟨fun b hb => ?_, fun e he => by cases he⟩
  cases hb
  exact h s hs

/-- The error of `throw` has to satisfy the postcondition of errors already. -/
theorem throw {e : ε} (h : ∀ s, P s → E e s) : Triple P (Cmd.throw e : Cmd σ ε α) Q E := by
  intro s hs
  refine ⟨fun b hb => (by cases hb), fun e' he => ?_⟩
  cases he
  exact h s hs

/-- The rule of sequence: the first postcondition is the second precondition, and an error of either
command is an error of the sequence. -/
theorem bind {c : Cmd σ ε β} {k : β → Cmd σ ε α} (hc : Triple P c R E)
    (hk : ∀ b, Triple (R b) (k b) Q E) : Triple P (c >>= k) Q E := by
  intro s hs
  obtain ⟨hok, herr⟩ := hc s hs
  rcases hcs : c.run s with ⟨e | b, s'⟩ <;> rw [hcs] at hok herr
  · rw [run_bind_error hcs]
    refine ⟨fun a ha => (by cases ha), fun e' he' => ?_⟩
    cases he'
    exact herr e rfl
  · rw [run_bind_ok hcs]
    exact hk b s' (hok b rfl)

/-- The rule of `gets`. -/
theorem gets {f : σ → α} (h : ∀ s, P s → Q (f s) s) :
    Triple P (Cmd.gets f : Cmd σ ε α) Q E := by
  intro s hs
  refine ⟨fun b hb => ?_, fun e he => by cases he⟩
  cases hb
  exact h s hs

/-- The rule of `modify`: the postcondition holds of the changed state. -/
theorem modify {f : σ → σ} {Q : Unit → σ → Prop} (h : ∀ s, P s → Q () (f s)) :
    Triple P (Cmd.modify f : Cmd σ ε Unit) Q E := by
  intro s hs
  refine ⟨fun b _ => h s hs, fun e he => by cases he⟩

/-- The rule of `getSome`, with one case for each shape of the option. -/
theorem getSome {o : Option α} {e : ε} (hs : ∀ a s, o = some a → P s → Q a s)
    (hn : ∀ s, o = none → P s → E e s) : Triple P (Cmd.getSome o e : Cmd σ ε α) Q E := by
  cases ho : o with
  | none => exact Triple.throw fun s h => hn s ho h
  | some a => exact Triple.pure fun s h => hs a s ho h

/-- The rule of `ofExcept`, with one case for each outcome. -/
theorem ofExcept {r : Except ε α} (hok : ∀ a s, r = .ok a → P s → Q a s)
    (herr : ∀ e s, r = .error e → P s → E e s) : Triple P (Cmd.ofExcept r : Cmd σ ε α) Q E := by
  cases hr : r with
  | error e => exact Triple.throw fun s h => herr e s hr h
  | ok a => exact Triple.pure fun s h => hok a s hr h

/-- The rule of a command that runs only on a value. -/
theorem whenSome {o : Option β} {f : β → Cmd σ ε Unit} {Q : Unit → σ → Prop}
    (hs : ∀ b, o = some b → Triple P (f b) Q E) (hn : ∀ s, o = none → P s → Q () s) :
    Triple P (Cmd.whenSome o f) Q E := by
  cases ho : o with
  | none => exact Triple.pure fun s h => hn s ho h
  | some b => exact hs b ho

/-- The rule of choice, with the condition at hand in each branch. -/
theorem ite {p : Prop} [Decidable p] {c d : Cmd σ ε α} (hc : p → Triple P c Q E)
    (hd : ¬ p → Triple P d Q E) : Triple P (if p then c else d) Q E := by
  by_cases h : p
  · rw [if_pos h]; exact hc h
  · rw [if_neg h]; exact hd h

/-- The rule of a command under a condition. -/
theorem when {p : Prop} [Decidable p] {c : Cmd σ ε Unit} {Q : Unit → σ → Prop}
    (hc : p → Triple P c Q E) (hn : ∀ s, ¬ p → P s → Q () s) : Triple P (Cmd.when p c) Q E :=
  Triple.ite hc fun hp => Triple.pure fun s hs => hn s hp hs

/-- The postcondition on the outcome of a command that is attempted. -/
def onOutcome (Q : α → σ → Prop) (E : ε → σ → Prop) : Except ε α → σ → Prop
  | .ok a => Q a
  | .error e => E e

/-- The rule of `attempt`: an error of the command becomes a value. -/
theorem attempt {c : Cmd σ ε α} {Q : Except ε α → σ → Prop}
    (h : Triple P c (fun a => Q (.ok a)) (fun e => Q (.error e))) :
    Triple P (Cmd.attempt c) Q E := by
  intro s hs
  refine ⟨?_, fun e he => by cases he⟩
  intro r hr
  have hr' : (c.run s).1 = r := by simpa [Cmd.attempt] using hr
  obtain ⟨hok, herr⟩ := h s hs
  cases r with
  | ok a => exact hok a hr'
  | error e => exact herr e hr'

/-- The rule of `ignore`: success and error lead to the same place. -/
theorem ignore {c : Cmd σ ε α} {Q : Unit → σ → Prop}
    (h : Triple P c (fun _ => Q ()) (fun _ => Q ())) : Triple P (Cmd.ignore c) Q E := by
  intro s hs
  refine ⟨fun _ _ => ?_, fun e he => by cases he⟩
  obtain ⟨hok, herr⟩ := h s hs
  cases hr : (c.run s).1 with
  | ok a => exact hok a hr
  | error e => exact herr e hr

/-- The rule of a handler: it starts where the error left off, and the error stays whatever the
handler does. -/
theorem onError {c : Cmd σ ε α} {k : ε → Cmd σ ε Unit} (hc : Triple P c Q F)
    (hk : ∀ e, Triple (F e) (k e) (fun _ => E e) (fun _ => E e)) :
    Triple P (Cmd.onError c k) Q E := by
  intro s hs
  obtain ⟨hok, herr⟩ := hc s hs
  rcases hcs : c.run s with ⟨e | a, s'⟩ <;> rw [hcs] at hok herr
  · rw [run_onError_error hcs]
    refine ⟨fun a ha => (by cases ha), fun e' he' => ?_⟩
    cases he'
    obtain ⟨hok', herr'⟩ := hk e s' (herr e rfl)
    cases hr : ((k e).run s').1 with
    | ok a => exact hok' a hr
    | error e'' => exact herr' e'' hr
  · rw [run_onError_ok hcs]
    refine ⟨fun b hb => ?_, fun e he => by cases he⟩
    cases hb
    exact hok a rfl

/-- The rule for a command on the first component, for each value of the second. -/
theorem inFst {τ : Type} {c : Cmd σ ε α} {P : σ × τ → Prop} {Q : α → σ × τ → Prop}
    {E : ε → σ × τ → Prop}
    (h : ∀ t, Triple (fun s => P (s, t)) c (fun a s => Q a (s, t)) (fun e s => E e (s, t))) :
    Triple P (Cmd.inFst c) Q E := by
  rintro ⟨s, t⟩ hs
  obtain ⟨hok, herr⟩ := h t s hs
  exact ⟨fun a ha => hok a ha, fun e he => herr e he⟩

/-- The rule of an auxiliary state that exists only while the command runs. -/
theorem runWith {τ : Type} {c : Cmd (σ × τ) ε α} {t : τ} {R : α → σ × τ → Prop}
    {F : ε → σ × τ → Prop} {Q : Except ε α × τ → σ → Prop}
    (h : Triple (fun s => P s.1 ∧ s.2 = t) c R F)
    (hok : ∀ a s t', R a (s, t') → Q (.ok a, t') s)
    (herr : ∀ e s t', F e (s, t') → Q (.error e, t') s) :
    Triple P (Cmd.runWith c t) Q E := by
  intro s hs
  refine ⟨fun r hr => ?_, fun e he => by cases he⟩
  cases hr
  obtain ⟨ho, he⟩ := h (s, t) ⟨hs, rfl⟩
  show Q ((c.run (s, t)).1, (c.run (s, t)).2.2) (c.run (s, t)).2.1
  cases hc : (c.run (s, t)).1 with
  | ok a => exact hok a _ _ (ho a hc)
  | error e => exact herr e _ _ (he e hc)

/-- The loop rule. The invariant `I` is indexed by the items that are still to come. -/
theorem forEach {f : β → Cmd σ ε Unit} (I : List β → σ → Prop)
    (hf : ∀ b bs, Triple (I (b :: bs)) (f b) (fun _ => I bs) E) :
    ∀ l, Triple (I l) (Cmd.forEach l f) (fun _ => I []) E := by
  intro l
  induction l with
  | nil => exact Triple.pure fun _ h => h
  | cons b bs ih => exact Triple.bind (hf b bs) fun _ => ih

/-- A command that cannot succeed fails with the error its triple names. -/
theorem fails {c : Cmd σ ε α} {e : ε} {R : σ → Prop}
    (h : Triple P c (fun _ _ => False) fun e' s => e' = e ∧ R s) {s : σ} (hs : P s) :
    (c.run s).1 = .error e ∧ R (c.run s).2 := by
  obtain ⟨hok, herr⟩ := h s hs
  cases hr : (c.run s).1 with
  | ok a => exact (hok a hr).elim
  | error e' =>
    obtain ⟨rfl, hR⟩ := herr e' hr
    exact ⟨rfl, hR⟩

/-- Two triples of one command hold together. -/
theorem and {c : Cmd σ ε α} (h : Triple P c Q E) (h' : Triple K c Q' F) :
    Triple (fun s => P s ∧ K s) c (fun a s => Q a s ∧ Q' a s) (fun e s => E e s ∧ F e s) :=
  fun s hs => ⟨fun a ha => ⟨(h s hs.1).1 a ha, (h' s hs.2).1 a ha⟩,
    fun e he => ⟨(h s hs.1).2 e he, (h' s hs.2).2 e he⟩⟩

/-- A pure fact can be taken out of a precondition. -/
theorem of_pre {c : Cmd σ ε α} (h : ∀ s₀, P s₀ → Triple (fun s => s = s₀) c Q E) :
    Triple P c Q E :=
  fun s hs => h s hs s rfl

/-- So can a part of it that is about no state. -/
theorem of_fact {p : Prop} {c : Cmd σ ε α} (h : p → Triple P c Q E) :
    Triple (fun s => p ∧ P s) c Q E :=
  fun s hs => h hs.1 s hs.2

end Triple

/-- A command of which nothing is said. -/
theorem triple_true (c : Cmd σ ε α) :
    Triple (fun _ => True) c (fun _ _ => True) fun _ _ => True :=
  fun _ _ => ⟨fun _ _ => trivial, fun _ _ => trivial⟩

/-! ### Invariants and frames -/

/-- The command keeps `I`, whether it succeeds or fails. -/
def Keeps (I : σ → Prop) (c : Cmd σ ε α) : Prop :=
  ∀ s, I s → I (c.run s).2

/-- The command leaves the part `f` of the state as it was. -/
def Frames (f : σ → γ) (c : Cmd σ ε α) : Prop :=
  ∀ s, f (c.run s).2 = f s

/-- An invariant as a triple. -/
theorem Keeps.triple {I : σ → Prop} {c : Cmd σ ε α} (h : Keeps I c) :
    Triple I c (fun _ => I) (fun _ => I) :=
  fun s hs => ⟨fun _ _ => h s hs, fun _ _ => h s hs⟩

/-- What a triple says of both ends holds of the last state. -/
theorem Triple.ends {P R : σ → Prop} {c : Cmd σ ε α} (h : Triple P c (fun _ => R) (fun _ => R))
    {s : σ} (hs : P s) : R (c.run s).2 := by
  obtain ⟨hok, herr⟩ := h s hs
  cases hr : (c.run s).1 with
  | ok a => exact hok a hr
  | error e => exact herr e hr

/-- A triple with the same assertion everywhere is an invariant. -/
theorem Triple.keeps {I : σ → Prop} {c : Cmd σ ε α}
    (h : Triple I c (fun _ => I) (fun _ => I)) : Keeps I c := fun _ hs => h.ends hs

/-- A predicate of a part of the state that a command leaves alone survives the command. -/
theorem Frames.keeps {f : σ → γ} {c : Cmd σ ε α} (h : Frames f c) (I : γ → Prop) :
    Keeps (fun s => I (f s)) c :=
  fun s hs => show I (f (c.run s).2) by rw [h s]; exact hs

namespace Keeps

variable {I : σ → Prop}

/-- `pure` keeps every invariant. -/
@[simp] theorem pure (a : α) : Keeps I (Pure.pure a : Cmd σ ε α) := fun _ h => h

/-- `throw` keeps every invariant. -/
@[simp] theorem throw (e : ε) : Keeps I (Cmd.throw e : Cmd σ ε α) := fun _ h => h

/-- `gets` keeps every invariant. -/
@[simp] theorem gets (g : σ → α) : Keeps I (Cmd.gets g : Cmd σ ε α) := fun _ h => h

/-- A sequence keeps what both of its commands keep. -/
@[simp] theorem bind {c : Cmd σ ε β} {k : β → Cmd σ ε α} (hc : Keeps I c)
    (hk : ∀ b, Keeps I (k b)) : Keeps I (c >>= k) := by
  intro s hs
  have h := hc s hs
  rcases hcs : c.run s with ⟨e | b, s'⟩ <;> rw [hcs] at h
  · rw [run_bind_error hcs]; exact h
  · rw [run_bind_ok hcs]; exact hk b s' h

/-- `getSome` keeps every invariant. -/
@[simp] theorem getSome (o : Option α) (e : ε) : Keeps I (Cmd.getSome o e : Cmd σ ε α) := by
  cases o <;> exact fun _ h => h

/-- `ofExcept` keeps every invariant. -/
@[simp] theorem ofExcept (r : Except ε α) : Keeps I (Cmd.ofExcept r : Cmd σ ε α) := by
  cases r <;> exact fun _ h => h

/-- A command on an optional value keeps what it keeps on each value. -/
@[simp] theorem whenSome {o : Option β} {k : β → Cmd σ ε Unit} (hk : ∀ b, Keeps I (k b)) :
    Keeps I (Cmd.whenSome o k) := by
  cases o with
  | none => exact fun _ h => h
  | some b => exact hk b

/-- A choice keeps what both of its branches keep. -/
@[simp] theorem ite {p : Prop} [Decidable p] {c d : Cmd σ ε α} (hc : Keeps I c)
    (hd : Keeps I d) : Keeps I (if p then c else d) := by
  by_cases h : p
  · rw [if_pos h]; exact hc
  · rw [if_neg h]; exact hd

/-- A command under a condition keeps what the command keeps. -/
@[simp] theorem when {p : Prop} [Decidable p] {c : Cmd σ ε Unit} (h : Keeps I c) :
    Keeps I (Cmd.when p c) := ite h (pure ())

/-- `attempt` keeps what the command keeps. -/
@[simp] theorem attempt {c : Cmd σ ε α} (h : Keeps I c) : Keeps I (Cmd.attempt c) := h

/-- `ignore` keeps what the command keeps. -/
@[simp] theorem ignore {c : Cmd σ ε α} (h : Keeps I c) : Keeps I (Cmd.ignore c) := h

/-- A command with a handler keeps what both of them keep. -/
@[simp] theorem onError {c : Cmd σ ε α} {k : ε → Cmd σ ε Unit} (hc : Keeps I c)
    (hk : ∀ e, Keeps I (k e)) : Keeps I (Cmd.onError c k) := by
  intro s hs
  have h := hc s hs
  rcases hcs : c.run s with ⟨e | a, s'⟩ <;> rw [hcs] at h
  · rw [run_onError_error hcs]; exact hk e s' h
  · rw [run_onError_ok hcs]; exact h

/-- A loop keeps what its body keeps on the elements of the list. -/
theorem forEach_mem {l : List β} {k : β → Cmd σ ε Unit} (hk : ∀ b ∈ l, Keeps I (k b)) :
    Keeps I (Cmd.forEach l k) := by
  induction l with
  | nil => exact fun _ h => h
  | cons b bs ih =>
    exact bind (hk b List.mem_cons_self) fun _ => ih fun b' hb' =>
      hk b' (List.mem_cons_of_mem b hb')

/-- A loop keeps what its body keeps. -/
@[simp] theorem forEach {l : List β} {k : β → Cmd σ ε Unit} (hk : ∀ b, Keeps I (k b)) :
    Keeps I (Cmd.forEach l k) := forEach_mem fun b _ => hk b

/-- A command on the first component keeps what it keeps there. -/
@[simp] theorem inFst {τ : Type} {c : Cmd σ ε α} (h : Keeps I c) :
    Keeps (fun s : σ × τ => I s.1) (Cmd.inFst c) :=
  fun s hs => h s.1 hs

/-- An auxiliary state does not matter to what is kept of the state proper. -/
@[simp] theorem runWith {τ : Type} {c : Cmd (σ × τ) ε α} {t : τ}
    (h : Keeps (fun s : σ × τ => I s.1) c) : Keeps I (Cmd.runWith c t) :=
  fun s hs => h (s, t) hs

end Keeps

/-- A fact about a part of the state that the command leaves alone goes through a triple. -/
theorem Triple.frame {f : σ → γ} {c : Cmd σ ε α} {P : σ → Prop} {Q : α → σ → Prop}
    {E : ε → σ → Prop} (h : Triple P c Q E) (hf : Frames f c) (R : γ → Prop) :
    Triple (fun s => P s ∧ R (f s)) c (fun a s => Q a s ∧ R (f s))
      (fun e s => E e s ∧ R (f s)) := by
  rintro s ⟨hP, hR⟩
  obtain ⟨hok, herr⟩ := h s hP
  have hR' : R (f (c.run s).2) := by rw [hf s]; exact hR
  exact ⟨fun a ha => ⟨hok a ha, hR'⟩, fun e he => ⟨herr e he, hR'⟩⟩

/-- The command never fails. -/
def Total (c : Cmd σ ε α) : Prop := ∀ s e, (c.run s).1 ≠ .error e

namespace Total

/-- `pure` does not fail. -/
@[simp] theorem pure (a : α) : Total (Pure.pure a : Cmd σ ε α) := fun _ _ h => by cases h

/-- `gets` does not fail. -/
@[simp] theorem gets (f : σ → α) : Total (Cmd.gets f : Cmd σ ε α) := fun _ _ h => by cases h

/-- `modify` does not fail. -/
@[simp] theorem modify (f : σ → σ) : Total (Cmd.modify f : Cmd σ ε Unit) :=
  fun _ _ h => by cases h

/-- `attempt` does not fail, whatever the command does. -/
@[simp] theorem attempt (c : Cmd σ ε α) : Total (Cmd.attempt c) := fun _ _ h => by cases h

/-- `ignore` does not fail, whatever the command does. -/
@[simp] theorem ignore (c : Cmd σ ε α) : Total (Cmd.ignore c) := fun _ _ h => by cases h

/-- A sequence of commands that do not fail does not fail. -/
@[simp] theorem bind {c : Cmd σ ε β} {k : β → Cmd σ ε α} (hc : Total c) (hk : ∀ b, Total (k b)) :
    Total (c >>= k) := by
  intro s e h
  rcases hcs : c.run s with ⟨e' | b, s'⟩
  · exact hc s e' (by rw [hcs])
  · rw [run_bind_ok hcs] at h
    exact hk b s' e h

/-- A command on an optional value does not fail if it does not fail on any value. -/
@[simp] theorem whenSome {o : Option β} {k : β → Cmd σ ε Unit} (hk : ∀ b, Total (k b)) :
    Total (Cmd.whenSome o k) := by
  cases o with
  | none => exact pure ()
  | some b => exact hk b

/-- A choice between commands that do not fail does not fail. -/
@[simp] theorem ite {p : Prop} [Decidable p] {c d : Cmd σ ε α} (hc : Total c) (hd : Total d) :
    Total (if p then c else d) := by
  by_cases h : p
  · rw [if_pos h]; exact hc
  · rw [if_neg h]; exact hd

/-- A command under a condition does not fail if the command does not. -/
@[simp] theorem when {p : Prop} [Decidable p] {c : Cmd σ ε Unit} (h : Total c) :
    Total (Cmd.when p c) := ite h (pure ())

/-- A loop does not fail if its body does not. -/
@[simp] theorem forEach {l : List β} {k : β → Cmd σ ε Unit} (hk : ∀ b, Total (k b)) :
    Total (Cmd.forEach l k) := by
  induction l with
  | nil => exact pure ()
  | cons b bs ih => exact bind (hk b) fun _ => ih

/-- The error postcondition of a command that never fails is free. -/
theorem triple {c : Cmd σ ε α} (ht : Total c) {P : σ → Prop} {Q : α → σ → Prop}
    {E F : ε → σ → Prop} (h : Triple P c Q E) : Triple P c Q F :=
  fun s hs => ⟨(h s hs).1, fun e he => absurd he (ht s e)⟩

end Total

/-- The command never fails, and its value is always the same. -/
def Returns (a : α) (c : Cmd σ ε α) : Prop := ∀ s, (c.run s).1 = .ok a

namespace Returns

/-- `pure a` returns `a`. -/
theorem pure (a : α) : Returns a (Pure.pure a : Cmd σ ε α) := fun _ => rfl

/-- A sequence returns what its second command returns, when the first one cannot fail. -/
theorem bind {a : α} {c : Cmd σ ε β} {k : β → Cmd σ ε α} (hc : Total c)
    (hk : ∀ b, Returns a (k b)) : Returns a (c >>= k) := by
  intro s
  rcases hcs : c.run s with ⟨e | b, s'⟩
  · exact absurd (by rw [hcs]) (hc s e)
  · rw [run_bind_ok hcs]
    exact hk b s'

end Returns

/-- A command that leaves a predicate alone keeps it. -/
theorem Frames.keepsProp {I : σ → Prop} {c : Cmd σ ε α} (h : Frames I c) : Keeps I c :=
  fun s hs => (h s).mpr hs

/-- A command leaves a view alone when it keeps every value of it. -/
theorem Frames.of_keeps {f : σ → γ} {c : Cmd σ ε α} (h : ∀ v, Keeps (fun s => f s = v) c) :
    Frames f c :=
  fun s => h (f s) s rfl

namespace Frames

variable {f : σ → γ}

/-- `pure` changes no view. -/
@[simp] theorem pure (a : α) : Frames f (Pure.pure a : Cmd σ ε α) := fun _ => rfl

/-- `throw` changes no view. -/
@[simp] theorem throw (e : ε) : Frames f (Cmd.throw e : Cmd σ ε α) := fun _ => rfl

/-- `gets` changes no view. -/
@[simp] theorem gets (g : σ → α) : Frames f (Cmd.gets g : Cmd σ ε α) := fun _ => rfl

/-- `modify` leaves a view that does not see the change. -/
@[simp] theorem modify {g : σ → σ} (h : ∀ s, f (g s) = f s) :
    Frames f (Cmd.modify g : Cmd σ ε Unit) := h

/-- A sequence leaves a view that both of its commands leave. -/
@[simp] theorem bind {c : Cmd σ ε β} {k : β → Cmd σ ε α} (hc : Frames f c)
    (hk : ∀ b, Frames f (k b)) : Frames f (c >>= k) := by
  intro s
  have h := hc s
  rcases hcs : c.run s with ⟨e | b, s'⟩ <;> rw [hcs] at h
  · rw [run_bind_error hcs]; exact h
  · rw [run_bind_ok hcs]; exact (hk b s').trans h

/-- `getSome` changes no view. -/
@[simp] theorem getSome (o : Option α) (e : ε) : Frames f (Cmd.getSome o e : Cmd σ ε α) := by
  cases o <;> exact fun _ => rfl

/-- `ofExcept` changes no view. -/
@[simp] theorem ofExcept (r : Except ε α) : Frames f (Cmd.ofExcept r : Cmd σ ε α) := by
  cases r <;> exact fun _ => rfl

/-- A command on an optional value leaves a view that it leaves on each value. -/
@[simp] theorem whenSome {o : Option β} {k : β → Cmd σ ε Unit} (hk : ∀ b, Frames f (k b)) :
    Frames f (Cmd.whenSome o k) := by
  cases o with
  | none => exact fun _ => rfl
  | some b => exact hk b

/-- A choice leaves a view that both of its branches leave. -/
@[simp] theorem ite {p : Prop} [Decidable p] {c d : Cmd σ ε α} (hc : Frames f c)
    (hd : Frames f d) : Frames f (if p then c else d) := by
  by_cases h : p
  · rw [if_pos h]; exact hc
  · rw [if_neg h]; exact hd

/-- A command under a condition leaves a view that the command leaves. -/
@[simp] theorem when {p : Prop} [Decidable p] {c : Cmd σ ε Unit} (h : Frames f c) :
    Frames f (Cmd.when p c) := ite h (pure ())

/-- `attempt` leaves a view that the command leaves. -/
@[simp] theorem attempt {c : Cmd σ ε α} (h : Frames f c) : Frames f (Cmd.attempt c) := h

/-- `ignore` leaves a view that the command leaves. -/
@[simp] theorem ignore {c : Cmd σ ε α} (h : Frames f c) : Frames f (Cmd.ignore c) := h

/-- A command with a handler leaves a view that both of them leave. -/
@[simp] theorem onError {c : Cmd σ ε α} {k : ε → Cmd σ ε Unit} (hc : Frames f c)
    (hk : ∀ e, Frames f (k e)) : Frames f (Cmd.onError c k) := by
  intro s
  have h := hc s
  rcases hcs : c.run s with ⟨e | a, s'⟩ <;> rw [hcs] at h
  · rw [run_onError_error hcs]; exact (hk e s').trans h
  · rw [run_onError_ok hcs]; exact h

/-- A loop leaves a view that its body leaves. -/
@[simp] theorem forEach {l : List β} {k : β → Cmd σ ε Unit} (hk : ∀ b, Frames f (k b)) :
    Frames f (Cmd.forEach l k) := by
  induction l with
  | nil => exact fun _ => rfl
  | cons b bs ih => exact bind (hk b) fun _ => ih

/-- A command on the first component leaves a view of it. -/
@[simp] theorem inFst {τ : Type} {c : Cmd σ ε α} (h : Frames f c) :
    Frames (fun s : σ × τ => f s.1) (Cmd.inFst c) :=
  fun s => h s.1

/-- An auxiliary state does not matter to a view of the state proper. -/
@[simp] theorem runWith {τ : Type} {c : Cmd (σ × τ) ε α} {t : τ}
    (h : Frames (fun s : σ × τ => f s.1) c) : Frames f (Cmd.runWith c t) :=
  fun s => h (s, t)

/-- A command that leaves `f` alone leaves every function of `f` alone. -/
theorem comp {δ : Type} (g : γ → δ) {c : Cmd σ ε α} (h : Frames f c) :
    Frames (fun s => g (f s)) c :=
  fun s => congrArg g (h s)

end Frames

end Cmd

end Ape.Lib
