import Ape.Lib.Cmd

/-!
# `Ape.Lib.Blame`: commands that fail only when something else is to blame

A command that depends on others outside the program can fail because of them. Here the state has
a mark for that, `bad`, which is never taken back. `Succeeds bad P c Q` says that from `P` the
command succeeds and ends in `Q`, unless its run sets the mark. Nothing is said about a run that
sets it, apart from the mark.

The rules follow the combinators. What is attempted or ignored costs nothing: when the attempt
fails, the mark is set, and there is nothing left to show. A triple of the same command, whatever
it says about errors, adds its postcondition (`Succeeds.and_triple`).
-/

set_option autoImplicit false

namespace Ape.Lib

namespace Cmd

variable {σ ε α β γ : Type}

/-- `P` holds, unless the state is marked. -/
def Unless (bad P : σ → Prop) (s : σ) : Prop := ¬ bad s → P s

/-- A weaker property holds unless the same is to blame. -/
theorem Unless.imp {bad P Q : σ → Prop} {s : σ} (h : Unless bad P s) (hPQ : P s → Q s) :
    Unless bad Q s := fun hs => hPQ (h hs)

/-- From `P` the command succeeds and ends in `Q`, unless its run sets the mark. The mark is not
taken back. -/
structure Succeeds (bad P : σ → Prop) (c : Cmd σ ε α) (Q : α → σ → Prop) : Prop where
  stays : Keeps bad c
  good : Triple P c (fun a => Unless bad (Q a)) fun _ => bad

namespace Succeeds

variable {bad P : σ → Prop} {Q : α → σ → Prop} {R : β → σ → Prop}

/-- The triple of a run that may have set the mark before. -/
theorem triple {c : Cmd σ ε α} (h : Succeeds bad P c Q) :
    Triple (Unless bad P) c (fun a => Unless bad (Q a)) fun _ => bad := by
  intro s hs
  by_cases hbad : bad s
  · -- the mark stays, so there is nothing to show
    have hend : bad (c.run s).2 := h.stays s hbad
    exact ⟨fun a _ hn => absurd hend hn, fun e _ => hend⟩
  · exact h.good s (hs hbad)

/-- A triple whose errors are all to blame. -/
theorem of_triple {c : Cmd σ ε α} (hstay : Keeps bad c) {E : ε → σ → Prop}
    (h : Triple P c Q E) (hE : ∀ e s, E e s → bad s) : Succeeds bad P c Q where
  stays := hstay
  good := h.imp (fun _ hs => hs) (fun _ _ hq _ => hq) hE

/-- The rule of consequence. -/
theorem imp {P' : σ → Prop} {Q' : α → σ → Prop} {c : Cmd σ ε α} (h : Succeeds bad P' c Q')
    (hP : ∀ s, P s → P' s) (hQ : ∀ a s, Q' a s → Q a s) : Succeeds bad P c Q where
  stays := h.stays
  good := h.good.imp hP (fun a s hq => hq.imp (hQ a s)) fun _ _ he => he

/-- The rule of consequence for the precondition alone. -/
theorem pre {P' : σ → Prop} {c : Cmd σ ε α} (h : Succeeds bad P' c Q) (hP : ∀ s, P s → P' s) :
    Succeeds bad P c Q := h.imp hP fun _ _ hq => hq

/-- The rule of consequence for the postcondition alone. -/
theorem post {Q' : α → σ → Prop} {c : Cmd σ ε α} (h : Succeeds bad P c Q')
    (hQ : ∀ a s, Q' a s → Q a s) : Succeeds bad P c Q := h.imp (fun _ hs => hs) hQ

/-- In a run that is not marked, the command succeeds. -/
theorem ok {c : Cmd σ ε α} (h : Succeeds bad P c Q) {s : σ} (hs : P s)
    (hn : ¬ bad (c.run s).2) : ∃ a, (c.run s).1 = .ok a ∧ Q a (c.run s).2 := by
  obtain ⟨hok, herr⟩ := h.good s hs
  cases hr : (c.run s).1 with
  | ok a => exact ⟨a, rfl, hok a hr hn⟩
  | error e => exact absurd (herr e hr) hn

/-- `pure` succeeds. -/
theorem pure {a : α} (h : ∀ s, P s → Q a s) : Succeeds bad P (Pure.pure a : Cmd σ ε α) Q where
  stays := Keeps.pure a
  good := Triple.pure fun s hs _ => h s hs

/-- A look at the state succeeds. -/
theorem gets {f : σ → α} (h : ∀ s, P s → Q (f s) s) :
    Succeeds bad P (Cmd.gets f : Cmd σ ε α) Q where
  stays := Keeps.gets f
  good := Triple.gets fun s hs _ => h s hs

/-- A change of the state succeeds, and takes no blame away. -/
theorem modify {f : σ → σ} {Q : Unit → σ → Prop} (hbad : ∀ s, bad s → bad (f s))
    (h : ∀ s, P s → Q () (f s)) : Succeeds bad P (Cmd.modify f : Cmd σ ε Unit) Q where
  stays := hbad
  good := Triple.modify fun s hs _ => h s hs

/-- A sequence succeeds where both of its commands do. -/
theorem bind {c : Cmd σ ε β} {k : β → Cmd σ ε α} (hc : Succeeds bad P c R)
    (hk : ∀ b, Succeeds bad (R b) (k b) Q) : Succeeds bad P (c >>= k) Q where
  stays := Keeps.bind hc.stays fun b => (hk b).stays
  good := Triple.bind hc.good fun b => (hk b).triple

/-- `getSome` succeeds where there is a value. -/
theorem getSome {o : Option α} {e : ε} (hs : ∀ a s, o = some a → P s → Q a s)
    (hn : ∀ s, o = none → ¬ P s) : Succeeds bad P (Cmd.getSome o e : Cmd σ ε α) Q where
  stays := Keeps.getSome o e
  good := Triple.getSome (fun a s ho h _ => hs a s ho h) fun s ho h => absurd h (hn s ho)

/-- A choice succeeds when each branch that can be taken does. -/
theorem ite {p : Prop} [Decidable p] {c d : Cmd σ ε α} (hc : p → Succeeds bad P c Q)
    (hd : ¬ p → Succeeds bad P d Q) : Succeeds bad P (if p then c else d) Q := by
  by_cases h : p
  · rw [if_pos h]
    exact hc h
  · rw [if_neg h]
    exact hd h

/-- A command under a condition succeeds when the command does. -/
theorem when {p : Prop} [Decidable p] {c : Cmd σ ε Unit} {Q : Unit → σ → Prop}
    (hc : p → Succeeds bad P c Q) (hn : ∀ s, ¬ p → P s → Q () s) :
    Succeeds bad P (Cmd.when p c) Q :=
  ite hc fun hp => pure fun s hs => hn s hp hs

/-- A command that succeeds, and then one that may fail for other reasons. -/
theorem bind_triple {c : Cmd σ ε β} {k : β → Cmd σ ε α} {E : ε → σ → Prop}
    (hc : Succeeds bad P c R) (hstay : ∀ b, Keeps bad (k b))
    (hk : ∀ b, Triple (R b) (k b) (fun a => Unless bad (Q a)) fun e => Unless bad (E e)) :
    Triple P (c >>= k) (fun a => Unless bad (Q a)) fun e => Unless bad (E e) := by
  have hrest : ∀ b, Triple (Unless bad (R b)) (k b) (fun a => Unless bad (Q a))
      fun e => Unless bad (E e) := by
    intro b s hs
    by_cases hbad : bad s
    · have hend : bad ((k b).run s).2 := hstay b s hbad
      exact ⟨fun _ _ hn => absurd hend hn, fun _ _ hn => absurd hend hn⟩
    · exact hk b s (hs hbad)
  exact Triple.bind (hc.good.imp (fun _ hs => hs) (fun _ _ hq => hq)
    fun _ _ hbad hn => absurd hbad hn) hrest

/-- What is ignored may fail. -/
theorem ignore {c : Cmd σ ε α} {Q : Unit → σ → Prop} (h : Succeeds bad P c fun _ => Q ()) :
    Succeeds bad P (Cmd.ignore c) Q where
  stays := Keeps.ignore h.stays
  good := Triple.ignore (h.good.imp (fun _ hs => hs) (fun _ _ hq => hq)
    fun _ s (hbad : bad s) hn => absurd hbad hn)

/-- The cleanup of an error has nothing to show but that the mark stays. -/
theorem onError {c : Cmd σ ε α} {k : ε → Cmd σ ε Unit} (hc : Succeeds bad P c Q)
    (hk : ∀ e, Keeps bad (k e)) : Succeeds bad P (Cmd.onError c k) Q where
  stays := Keeps.onError hc.stays hk
  good := Triple.onError hc.good fun e => (hk e).triple

/-- A command that is attempted, and what follows each outcome. Only a success has to go on. -/
theorem attempt_bind {c : Cmd σ ε β} {k : Except ε β → Cmd σ ε α} (hc : Succeeds bad P c R)
    (hok : ∀ b, Succeeds bad (R b) (k (.ok b)) Q) (herr : ∀ e, Keeps bad (k (.error e))) :
    Succeeds bad P (Cmd.attempt c >>= k) Q where
  stays := by
    refine Keeps.bind (Keeps.attempt hc.stays) fun r => ?_
    cases r with
    | ok b => exact (hok b).stays
    | error e => exact herr e
  good := by
    refine Triple.bind (R := Triple.onOutcome (fun b => Unless bad (R b)) fun _ => bad)
      (Triple.attempt hc.good) fun r => ?_
    cases r with
    | ok b => exact (hok b).triple
    | error e =>
      exact (herr e).triple.imp (fun _ hs => hs) (fun _ _ hbad hn => absurd hbad hn)
        fun _ _ hbad => hbad

/-- The loop rule. The invariant `I` is indexed by the items that are still to come. -/
theorem forEach {f : β → Cmd σ ε Unit} (I : List β → σ → Prop) :
    ∀ l, (∀ b bs, (∃ front, l = front ++ b :: bs) →
      Succeeds bad (I (b :: bs)) (f b) fun _ => I bs) →
      Succeeds bad (I l) (Cmd.forEach l f) fun _ => I [] := by
  intro l
  induction l with
  | nil =>
    intro _
    exact pure fun _ h => h
  | cons b bs ih =>
    intro hf
    refine bind (hf b bs ⟨[], rfl⟩) fun _ => ih fun b' bs' ⟨front, hfront⟩ => ?_
    exact hf b' bs' ⟨b :: front, by rw [hfront, List.cons_append]⟩

/-- A loop whose body keeps the invariant. -/
theorem forEach_const {l : List β} {f : β → Cmd σ ε Unit}
    (hf : ∀ b ∈ l, Succeeds bad P (f b) fun _ => P) :
    Succeeds bad P (Cmd.forEach l f) fun _ => P := by
  refine forEach (fun _ => P) l fun b bs ⟨front, hfront⟩ => hf b ?_
  rw [hfront]
  exact List.mem_append_right front List.mem_cons_self

/-- A triple of the same command adds what it says about success. -/
theorem and_triple {c : Cmd σ ε α} {K : σ → Prop} {Q' : α → σ → Prop} {F : ε → σ → Prop}
    (h : Succeeds bad P c Q) (h' : Triple K c Q' F) :
    Succeeds bad (fun s => P s ∧ K s) c fun a s => Q a s ∧ Q' a s where
  stays := h.stays
  good := (h.good.and h').imp (fun _ hs => hs) (fun _ _ hq hn => ⟨hq.1 hn, hq.2⟩)
    fun _ _ he => he.1

/-- What the command leaves alone stays true. -/
theorem frame {c : Cmd σ ε α} {I : σ → Prop} (h : Succeeds bad P c Q) (hI : Keeps I c) :
    Succeeds bad (fun s => P s ∧ I s) c fun a s => Q a s ∧ I s :=
  h.and_triple hI.triple

/-- A command of the first part of the state. -/
theorem inFst {τ : Type} {c : Cmd σ ε α} {P : σ × τ → Prop} {Q : α → σ × τ → Prop}
    (h : ∀ t, Succeeds bad (fun s => P (s, t)) c fun a s => Q a (s, t)) :
    Succeeds (fun s : σ × τ => bad s.1) P (Cmd.inFst c) Q where
  stays := fun s hs => (h s.2).stays s.1 hs
  good := Triple.inFst fun t => (h t).good

/-- A command on an optional value succeeds when it does on each value. -/
theorem whenSome {o : Option β} {k : β → Cmd σ ε Unit} {Q : Unit → σ → Prop}
    (hk : ∀ b, o = some b → Succeeds bad P (k b) Q) (hn : ∀ s, o = none → P s → Q () s) :
    Succeeds bad P (Cmd.whenSome o k) Q := by
  cases o with
  | none => exact pure fun s hs => hn s rfl hs
  | some b => exact hk b rfl

/-- A fact about the first state can be used in the proof. -/
theorem of_pre {c : Cmd σ ε α} (hstay : Keeps bad c)
    (h : ∀ s₀, P s₀ → Succeeds bad (fun s => s = s₀) c Q) : Succeeds bad P c Q where
  stays := hstay
  good := Triple.of_pre fun s₀ h₀ => (h s₀ h₀).good

end Succeeds

/-! ### A single state -/

/-- From this state the command succeeds, unless its run sets the mark. -/
def Accepts (bad : σ → Prop) (c : Cmd σ ε α) (s : σ) : Prop :=
  ¬ bad (c.run s).2 → ∃ a, (c.run s).1 = .ok a

namespace Accepts

variable {bad P : σ → Prop} {s : σ}

/-- A command that succeeds from a precondition is accepted in each state of it. -/
theorem of_succeeds {c : Cmd σ ε α} {Q : α → σ → Prop} (h : Succeeds bad P c Q) (hs : P s) :
    Accepts bad c s := fun hn => (h.ok hs hn).imp fun _ ha => ha.1

/-- `pure` is accepted. -/
theorem pure (a : α) : Accepts bad (Pure.pure a : Cmd σ ε α) s := fun _ => ⟨a, rfl⟩

/-- What runs first only reads the state. -/
theorem after {c : Cmd σ ε β} {k : β → Cmd σ ε α} {b : β} (hc : c.run s = (.ok b, s))
    (h : Accepts bad (k b) s) : Accepts bad (c >>= k) s := by
  rw [Accepts, run_bind_ok hc]
  exact h

/-- A choice is accepted when each branch that can be taken is. -/
theorem ite {p : Prop} [Decidable p] {c d : Cmd σ ε α} (hc : p → Accepts bad c s)
    (hd : ¬ p → Accepts bad d s) : Accepts bad (if p then c else d) s := by
  by_cases h : p
  · rw [if_pos h]
    exact hc h
  · rw [if_neg h]
    exact hd h

/-- What succeeds is not refused. -/
theorem not_rejects {c : Cmd σ ε α} (h : Accepts bad c s) (hn : ¬ bad (c.run s).2) :
    ¬ Rejects c s := by
  rintro ⟨e, he⟩
  obtain ⟨a, ha⟩ := h hn
  rw [he] at ha
  cases ha

end Accepts

end Cmd

end Ape.Lib
