import Ape.Lib.Cmd

/-!
# `Ape.Lib.Along`: assertions along a run

A part of a command may be right only under a condition on the state in which it starts. `After c A`
says that `A` holds of what `c` succeeds with, if `c` succeeds. `AtEach f A l` says that `A` holds
wherever the loop over `l` starts an item. Both are about the one run that starts here, so a
condition on the answers of a service can be put on the calls that the run really makes.

`Triple.bind_after` and `Triple.forEach_atEach` use an assertion where the run gets to it.
-/

set_option autoImplicit false

namespace Ape.Lib

namespace Cmd

variable {σ ε α β : Type}

/-- `A` holds of the value and the state that `c` succeeds with, if it succeeds. -/
def After (c : Cmd σ ε α) (A : α → σ → Prop) (s : σ) : Prop :=
  ∀ a, (c.run s).1 = .ok a → A a (c.run s).2

/-- `A` holds wherever the loop starts an item. -/
def AtEach (f : β → Cmd σ ε Unit) (A : β → σ → Prop) : List β → σ → Prop
  | [], _ => True
  | b :: bs, s => A b s ∧ After (f b) (fun _ => AtEach f A bs) s

/-- The continuation may use the assertion about what comes before it. -/
theorem Triple.bind_after {c : Cmd σ ε β} {k : β → Cmd σ ε α} {P : σ → Prop} {R A : β → σ → Prop}
    {Q : α → σ → Prop} {E : ε → σ → Prop} (hc : Triple P c R E)
    (hk : ∀ b, Triple (fun s => R b s ∧ A b s) (k b) Q E) :
    Triple (fun s => P s ∧ After c A s) (c >>= k) Q E := by
  refine Triple.bind (R := fun b s => R b s ∧ A b s) (fun s hs => ?_) hk
  obtain ⟨hok, herr⟩ := hc s hs.1
  exact ⟨fun b hb => ⟨hok b hb, hs.2 b hb⟩, herr⟩

/-- The loop rule for items that need the assertion. The invariant is indexed by the items that are
still to come. -/
theorem Triple.forEach_atEach {f : β → Cmd σ ε Unit} {A : β → σ → Prop} (I : List β → σ → Prop)
    {E : ε → σ → Prop}
    (h : ∀ b bs, Triple (fun s => I (b :: bs) s ∧ A b s) (f b) (fun _ => I bs) E) (l : List β) :
    Triple (fun s => I l s ∧ AtEach f A l s) (Cmd.forEach l f) (fun _ => I []) E := by
  induction l with
  | nil => exact Triple.pure fun s hs => hs.1
  | cons b bs ih =>
    have hfirst : Triple (fun s => (I (b :: bs) s ∧ A b s) ∧
        After (f b) (fun _ => AtEach f A bs) s) (f b >>= fun _ => Cmd.forEach bs f)
          (fun _ => I []) E :=
      Triple.bind_after (h b bs) fun _ => ih
    exact hfirst.pre fun s hs => ⟨⟨hs.1, hs.2.1⟩, hs.2.2⟩

end Cmd

end Ape.Lib
