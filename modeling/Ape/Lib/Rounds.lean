import Ape.Lib.Cmd
import Mathlib.Data.List.Basic

/-!
# `Ape.Lib.Rounds`: a transfer in rounds, and the position it leaves

A transfer moves an amount in rounds. A round takes the total so far to the next total, says whether
another round follows, and may fail. `runRounds` is the loop, and `Ran` is the part of a run in
which every round asked for the next one.

A position goes ahead with the total and stops at `top`, and a total from `lim` on is no amount. An
exact loop has a value by which the position went ahead, or it fails and nothing was moved.
`runRounds_exact_iff` says when a loop is exact: when no round fails once something was moved, and
no round takes the total to `lim` or the position past `top`.
-/

set_option autoImplicit false

namespace Ape.Lib

open Cmd

variable {ι σ ε : Type}

/-- What one round does: from the total so far, the next total and whether another round follows. -/
abbrev Round (ι σ ε : Type) := ι → Nat → Cmd σ ε (Nat × Bool)

/-- The loop over the rounds that are left, from `total` on. -/
def runRounds (round : Round ι σ ε) : List ι → Nat → Cmd σ ε Nat
  | [], total => pure total
  | i :: rest, total => do
    let r ← round i total
    if r.2 then runRounds round rest r.1 else pure r.1

/-- The rounds before those that are left were run, and each asked for the next one. -/
inductive Ran (round : Round ι σ ε) : List ι → Nat → σ → List ι → Nat → σ → Prop
  | refl (l : List ι) (total : Nat) (s : σ) : Ran round l total s l total s
  | next {i : ι} {rest left : List ι} {total t total' : Nat} {s s' s'' : σ} :
      (round i total).run s = (.ok (t, true), s') → Ran round rest t s' left total' s'' →
      Ran round (i :: rest) total s left total' s''

/-- A round that ends with a test for the last round. -/
theorem runRounds_step (round : Round ι σ ε) (rest : List ι) (t : Nat) (p : Prop) [Decidable p] :
    ((pure (t, !decide p) : Cmd σ ε (Nat × Bool)) >>= fun r =>
      if r.2 then runRounds round rest r.1 else pure r.1) =
      if p then pure t else runRounds round rest t := by
  show (if (!decide p) = true then runRounds round rest t else pure t) = _
  by_cases h : p
  · rw [if_pos h, if_neg (by simp [h])]
  · rw [if_neg h, if_pos (by simp [h])]

section Run

variable {round : Round ι σ ε} {i : ι} {l rest left : List ι} {total total' t : Nat} {s s' : σ}

/-- A round that wants more is followed by the rest. -/
theorem run_more (h : (round i total).run s = (.ok (t, true), s')) :
    (runRounds round (i :: rest) total).run s = (runRounds round rest t).run s' := by
  rw [runRounds, run_bind_ok h, if_pos rfl]

/-- A round that is the last one ends the run. -/
theorem run_last (h : (round i total).run s = (.ok (t, false), s')) :
    (runRounds round (i :: rest) total).run s = (.ok t, s') := by
  rw [runRounds, run_bind_ok h, if_neg Bool.false_ne_true]
  rfl

/-- A round that fails ends the run with its error. -/
theorem run_failed {e : ε} (h : (round i total).run s = (.error e, s')) :
    (runRounds round (i :: rest) total).run s = (.error e, s') := by
  rw [runRounds, run_bind_error h]

/-- The rest of a run is the run of the rounds that are left. -/
theorem Ran.run_eq (h : Ran round l total s left total' s') :
    (runRounds round l total).run s = (runRounds round left total').run s' := by
  induction h with
  | refl => rfl
  | next hround _ ih => rw [run_more hround, ih]

/-- A run that goes on from where another one stopped. -/
theorem Ran.trans {left' : List ι} {total'' : Nat} {s'' : σ}
    (h : Ran round l total s left total' s') (h' : Ran round left total' s' left' total'' s'') :
    Ran round l total s left' total'' s'' := by
  induction h with
  | refl => exact h'
  | next hround _ ih => exact .next hround (ih h')

/-- A loop ends with its rounds, with a round that asks for no other, or with a round that fails. -/
theorem runRounds_cases (round : Round ι σ ε) (l : List ι) (total : Nat) (s : σ) :
    (∃ n s', (runRounds round l total).run s = (.ok n, s') ∧ Ran round l total s [] n s') ∨
    (∃ i rest t s₁ n s', Ran round l total s (i :: rest) t s₁ ∧
      (round i t).run s₁ = (.ok (n, false), s') ∧ (runRounds round l total).run s = (.ok n, s')) ∨
    ∃ i rest t s₁ e s', Ran round l total s (i :: rest) t s₁ ∧
      (round i t).run s₁ = (.error e, s') ∧ (runRounds round l total).run s = (.error e, s') := by
  induction l generalizing total s with
  | nil => exact .inl ⟨total, s, rfl, .refl _ _ _⟩
  | cons i rest ih =>
    rcases hround : (round i total).run s with ⟨e | ⟨t, more⟩, s'⟩
    · exact .inr (.inr ⟨i, rest, total, s, e, s', .refl _ _ _, hround, run_failed hround⟩)
    cases more with
    | false => exact .inr (.inl ⟨i, rest, total, s, t, s', .refl _ _ _, hround, run_last hround⟩)
    | true =>
      rw [run_more hround]
      rcases ih t s' with ⟨n, s₂, hrun, hran⟩ | ⟨j, m, t₁, s₁, n, s₂, hran, hlast, hrun⟩ |
        ⟨j, m, t₁, s₁, e, s₂, hran, hfail, hrun⟩
      · exact .inl ⟨n, s₂, hrun, .next hround hran⟩
      · exact .inr (.inl ⟨j, m, t₁, s₁, n, s₂, .next hround hran, hlast, hrun⟩)
      · exact .inr (.inr ⟨j, m, t₁, s₁, e, s₂, .next hround hran, hfail, hrun⟩)

/-- What every round keeps of the total and the state holds where the loop ends with a value. -/
theorem runRounds_value {P : Nat → σ → Prop} (h : ∀ i ∈ l, ∀ total s t more s', P total s →
    (round i total).run s = (.ok (t, more), s') → P t s') (htotal : P total s) {n : Nat}
    (hrun : (runRounds round l total).run s = (.ok n, s')) : P n s' := by
  induction l generalizing total s with
  | nil =>
    cases hrun
    exact htotal
  | cons i rest ih =>
    rcases hround : (round i total).run s with ⟨e | ⟨t, more⟩, s₁⟩
    · rw [run_failed hround] at hrun
      cases hrun
    have ht : P t s₁ := h i List.mem_cons_self _ _ _ _ _ htotal hround
    cases more with
    | false =>
      rw [run_last hround] at hrun
      cases hrun
      exact ht
    | true =>
      rw [run_more hround] at hrun
      exact ih (fun j hj => h j (List.mem_cons_of_mem _ hj)) ht hrun

/-- What every round keeps, whether it fails or not, the loop keeps. -/
theorem runRounds_keeps {P : σ → Prop} (h : ∀ i total, Keeps P (round i total)) (l : List ι)
    (total : Nat) : Keeps P (runRounds round l total) := by
  induction l generalizing total with
  | nil => exact Keeps.pure _
  | cons i rest ih => exact Keeps.bind (h i total) fun r => Keeps.ite (ih _) (Keeps.pure _)

/-- Without rounds there is no round to run. -/
theorem Ran.of_nil (h : Ran round [] total s left total' s') :
    left = [] ∧ total' = total ∧ s' = s := by
  cases h
  exact ⟨rfl, rfl, rfl⟩

end Run

/-! ### The position -/

/-- Something was moved before the loop failed: by rounds that asked for the next one, or by the
round that failed, of which `Lost` says that it moved something. -/
def Moved (round : Round ι σ ε) (Lost : ι → Nat → σ → Prop) (l : List ι) (s : σ) : Prop :=
  (∃ left t s₁, Ran round l 0 s left t s₁ ∧ 0 < t) ∨
    ∃ i rest t s₁ e s₂, Ran round l 0 s (i :: rest) t s₁ ∧
      (round i t).run s₁ = (.error e, s₂) ∧ Lost i t s₁

/-- How rounds move a position, as long as the total is an amount. -/
structure Moving (round : Round ι σ ε) (top lim : Nat) (pos : σ → Nat) (I : σ → Prop)
    (Lost : ι → Nat → σ → Prop) (l : List ι) : Prop where
  below : ∀ s, I s → pos s ≤ top
  keeps : ∀ i ∈ l, ∀ total s t more s', I s →
    (round i total).run s = (.ok (t, more), s') → I s' ∧ pos s ≤ pos s' ∧
      (lim ≤ total → lim ≤ t) ∧ (t < lim → total ≤ t ∧ pos s' = min (pos s + (t - total)) top)
  fails : ∀ i ∈ l, ∀ total s e s', I s → (round i total).run s = (.error e, s') →
    ¬ Lost i total s → pos s' = pos s

/-- The value of the loop is the amount that the position went ahead by, and an error means that the
position stayed and nothing was moved. -/
structure Exact (round : Round ι σ ε) (lim : Nat) (pos : σ → Nat) (Lost : ι → Nat → σ → Prop)
    (l : List ι) (s : σ) : Prop where
  value : ∀ n s', (runRounds round l 0).run s = (.ok n, s') → n < lim ∧ pos s' = pos s + n
  error : ∀ e s', (runRounds round l 0).run s = (.error e, s') →
    pos s' = pos s ∧ ¬ Moved round Lost l s

/-- No round fails once something was moved, and no round takes the total to `lim` or the position
past `top`. -/
structure Smooth (round : Round ι σ ε) (top lim : Nat) (pos : σ → Nat) (Lost : ι → Nat → σ → Prop)
    (l : List ι) (total : Nat) (s : σ) : Prop where
  error : ∀ i rest t s₁ e s₂, Ran round l total s (i :: rest) t s₁ →
    (round i t).run s₁ = (.error e, s₂) → t = 0 ∧ ¬ Lost i t s₁
  room : ∀ i rest t s₁ t' more s₂, Ran round l total s (i :: rest) t s₁ →
    (round i t).run s₁ = (.ok (t', more), s₂) → t' < lim ∧ pos s₁ + (t' - t) ≤ top

section Position

variable {round : Round ι σ ε} {top lim : Nat} {pos : σ → Nat} {I : σ → Prop}
  {Lost : ι → Nat → σ → Prop}
  {l left : List ι} {total total' : Nat} {s s' : σ}

/-- What holds of the rounds holds of the rest of them. -/
theorem Moving.tail {i : ι} (h : Moving round top lim pos I Lost (i :: l)) :
    Moving round top lim pos I Lost l :=
  ⟨h.below, fun r hr => h.keeps r (List.mem_cons_of_mem _ hr),
    fun r hr => h.fails r (List.mem_cons_of_mem _ hr)⟩

/-- Rounds that were run moved the position by what they added to the total. -/
theorem Moving.ran (h : Moving round top lim pos I Lost l) (hs : I s)
    (hran : Ran round l total s left total' s') :
    I s' ∧ Moving round top lim pos I Lost left ∧ pos s ≤ pos s' ∧ (lim ≤ total → lim ≤ total') ∧
      (total' < lim → total ≤ total' ∧ pos s' = min (pos s + (total' - total)) top) := by
  induction hran with
  | refl l total s =>
    refine ⟨hs, h, Nat.le_refl _, id, fun _ => ⟨Nat.le_refl _, ?_⟩⟩
    rw [Nat.sub_self, Nat.add_zero, Nat.min_eq_left (h.below s hs)]
  | next hround _ ih =>
    obtain ⟨hI, hahead, hlim, hpos⟩ := h.keeps _ List.mem_cons_self _ _ _ _ _ hs hround
    obtain ⟨hI', hleft, hahead', hlim', hpos'⟩ := ih h.tail hI
    refine ⟨hI', hleft, Nat.le_trans hahead hahead', fun hle => hlim' (hlim hle), ?_⟩
    intro hlt
    obtain ⟨hle', hmin'⟩ := hpos' hlt
    obtain ⟨hle, hmin⟩ := hpos (by omega)
    exact ⟨Nat.le_trans hle hle', by omega⟩

/-- Where a loop that ends with a value has left the position. -/
theorem Moving.value (h : Moving round top lim pos I Lost l) (hs : I s) {n : Nat}
    (hrun : (runRounds round l total).run s = (.ok n, s')) :
    I s' ∧ pos s ≤ pos s' ∧ (lim ≤ total → lim ≤ n) ∧
      (n < lim → total ≤ n ∧ pos s' = min (pos s + (n - total)) top) := by
  rcases runRounds_cases round l total s with ⟨n', s₂, hrun', hran⟩ |
    ⟨i, rest, t, s₁, n', s₂, hran, hlast, hrun'⟩ | ⟨_, _, _, _, e, s₂, _, _, hrun'⟩
  · obtain ⟨rfl, rfl⟩ : n = n' ∧ s' = s₂ := by simpa using hrun.symm.trans hrun'
    obtain ⟨hI, -, hrest⟩ := h.ran hs hran
    exact ⟨hI, hrest⟩
  · obtain ⟨rfl, rfl⟩ : n = n' ∧ s' = s₂ := by simpa using hrun.symm.trans hrun'
    obtain ⟨hI, hleft, hahead, hlim, hpos⟩ := h.ran hs hran
    obtain ⟨hI', hahead', hlim', hpos'⟩ := hleft.keeps i List.mem_cons_self _ _ _ _ _ hI hlast
    refine ⟨hI', Nat.le_trans hahead hahead', fun hle => hlim' (hlim hle), ?_⟩
    intro hlt
    obtain ⟨hle', hmin'⟩ := hpos' hlt
    obtain ⟨hle, hmin⟩ := hpos (by omega)
    exact ⟨Nat.le_trans hle hle', by omega⟩
  · rw [hrun] at hrun'
    cases hrun'

/-- A loop that fails with nothing moved has left the position where it was. -/
theorem Moving.error (h : Moving round top lim pos I Lost l) (hs : I s) {e : ε} (hlim : 0 < lim)
    (hrun : (runRounds round l 0).run s = (.error e, s')) (hmoved : ¬ Moved round Lost l s) :
    pos s' = pos s := by
  rcases runRounds_cases round l 0 s with ⟨n, s₂, hrun', -⟩ | ⟨_, _, _, _, n, s₂, _, _, hrun'⟩ |
    ⟨i, rest, t, s₁, e', s₂, hran, hfail, hrun'⟩
  · rw [hrun] at hrun'
    cases hrun'
  · rw [hrun] at hrun'
    cases hrun'
  obtain ⟨-, rfl⟩ : e = e' ∧ s' = s₂ := by simpa using hrun.symm.trans hrun'
  have hzero : t = 0 := Nat.eq_zero_of_not_pos fun hpos => hmoved (.inl ⟨_, _, _, hran, hpos⟩)
  subst hzero
  have hlost : ¬ Lost i 0 s₁ := fun hlost =>
    hmoved (.inr ⟨i, rest, 0, s₁, e', s', hran, hfail, hlost⟩)
  obtain ⟨hI, hleft, -, -, hpos⟩ := h.ran hs hran
  rw [hleft.fails i List.mem_cons_self _ _ _ _ hI hfail hlost, (hpos hlim).2, Nat.sub_zero,
    Nat.add_zero, Nat.min_eq_left (h.below s hs)]

/-- A run that goes on smoothly is smooth from where it stopped. -/
theorem Smooth.after (h : Smooth round top lim pos Lost l total s)
    (hran : Ran round l total s left total' s') : Smooth round top lim pos Lost left total' s' :=
  ⟨fun _ _ _ _ _ _ hran' => h.error _ _ _ _ _ _ (hran.trans hran'),
    fun _ _ _ _ _ _ _ hran' => h.room _ _ _ _ _ _ _ (hran.trans hran')⟩

/-- Without rounds nothing was moved. -/
theorem not_moved_nil : ¬ Moved round Lost [] s := by
  rintro (⟨left, t, s₁, hran, hpos⟩ | ⟨i, rest, t, s₁, e, s₂, hran, -, -⟩)
  · rw [hran.of_nil.2.1] at hpos
    exact Nat.lt_irrefl _ hpos
  · cases hran.of_nil.1

/-- A run without rounds is smooth. -/
theorem Smooth.nil : Smooth round top lim pos Lost [] total s where
  error _ _ _ _ _ _ hran _ := by cases hran.of_nil.1
  room _ _ _ _ _ _ _ hran _ := by cases hran.of_nil.1

/-- A loop whose first round is its last one. -/
theorem Smooth.single {i : ι} {t : Nat}
    (hround : (round i total).run s = (.ok (t, false), s')) (hlt : t < lim)
    (hroom : pos s + (t - total) ≤ top) : Smooth round top lim pos Lost (i :: l) total s := by
  have hfirst : ∀ {j : ι} {rest : List ι} {t' : Nat} {s₁ : σ},
      Ran round (i :: l) total s (j :: rest) t' s₁ → j = i ∧ t' = total ∧ s₁ = s := by
    rintro j rest t' s₁ (_ | ⟨hnext, -⟩)
    · exact ⟨rfl, rfl, rfl⟩
    · rw [hround] at hnext
      cases hnext
  constructor
  · intro j rest t' s₁ e s₂ hran hfail
    obtain ⟨rfl, rfl, rfl⟩ := hfirst hran
    rw [hround] at hfail
    cases hfail
  · intro j rest t' s₁ t₁ more s₂ hran hok
    obtain ⟨rfl, rfl, rfl⟩ := hfirst hran
    rw [hround] at hok
    cases hok
    exact ⟨hlt, hroom⟩

/-- A loop whose first round asks for the next one. -/
theorem Smooth.cons {i : ι} {t : Nat}
    (hround : (round i total).run s = (.ok (t, true), s')) (hlt : t < lim)
    (hroom : pos s + (t - total) ≤ top) (hrest : Smooth round top lim pos Lost l t s') :
    Smooth round top lim pos Lost (i :: l) total s where
  error j rest t' s₁ e s₂ hran hfail := by
    cases hran with
    | refl =>
      rw [hround] at hfail
      cases hfail
    | next hnext hran =>
      rw [hround] at hnext
      cases hnext
      exact hrest.error _ _ _ _ _ _ hran hfail
  room j rest t' s₁ t₁ more s₂ hran hok := by
    cases hran with
    | refl =>
      rw [hround] at hok
      cases hok
      exact ⟨hlt, hroom⟩
    | next hnext hran =>
      rw [hround] at hnext
      cases hnext
      exact hrest.room _ _ _ _ _ _ _ hran hok

/-- With room for all that is moved, the position goes ahead with the total. -/
theorem Smooth.ran (h : Smooth round top lim pos Lost l total s)
    (hmoving : Moving round top lim pos I Lost l) (hs : I s) (htotal : total < lim)
    (hran : Ran round l total s left total' s') :
    total' < lim ∧ total ≤ total' ∧ pos s' = pos s + (total' - total) := by
  induction hran with
  | refl => exact ⟨htotal, Nat.le_refl _, by omega⟩
  | next hround hrest ih =>
    obtain ⟨hlt, hroom⟩ := h.room _ _ _ _ _ _ _ (.refl _ _ _) hround
    obtain ⟨hI, -, -, hpos⟩ := hmoving.keeps _ List.mem_cons_self _ _ _ _ _ hs hround
    obtain ⟨hle, hmin⟩ := hpos hlt
    obtain ⟨hlt', hle', hpos'⟩ := ih (h.after (.next hround (.refl _ _ _))) hmoving.tail hI hlt
    exact ⟨hlt', Nat.le_trans hle hle', by omega⟩

/-- A smooth loop is exact. -/
theorem Smooth.exact (h : Smooth round top lim pos Lost l 0 s)
    (hmoving : Moving round top lim pos I Lost l) (hs : I s) (hlim : 0 < lim) :
    Exact round lim pos Lost l s where
  value n s' hrun := by
    -- the loop ended after its last item, at a round that was the last one, or with an error
    rcases runRounds_cases round l 0 s with ⟨n', s₂, hrun', hran⟩ |
      ⟨i, rest, t, s₁, n', s₂, hran, hlast, hrun'⟩ | ⟨_, _, _, _, e, s₂, _, _, hrun'⟩
    · obtain ⟨rfl, rfl⟩ : n = n' ∧ s' = s₂ := by simpa using hrun.symm.trans hrun'
      obtain ⟨hlt, -, hpos⟩ := h.ran hmoving hs hlim hran
      exact ⟨hlt, hpos⟩
    -- the last round has the position for what it moved, so it stayed below `top`
    · obtain ⟨rfl, rfl⟩ : n = n' ∧ s' = s₂ := by simpa using hrun.symm.trans hrun'
      obtain ⟨-, -, hpos⟩ := h.ran hmoving hs hlim hran
      obtain ⟨hI, hleft, -⟩ := hmoving.ran hs hran
      obtain ⟨hlt, hroom⟩ := h.room _ _ _ _ _ _ _ hran hlast
      obtain ⟨hle, hmin⟩ := (hleft.keeps _ List.mem_cons_self _ _ _ _ _ hI hlast).2.2.2 hlt
      exact ⟨hlt, by omega⟩
    · rw [hrun] at hrun'
      cases hrun'
  error e s' hrun := by
    -- an error after something was moved would be one that `Smooth` excludes
    have hmoved : ¬ Moved round Lost l s := by
      rintro (⟨left, t, s₁, hran, hpos⟩ | ⟨i, rest, t, s₁, e', s₂, hran, hfail, hlost⟩)
      · -- the round that fails comes later, and finds a total that is not zero
        rw [hran.run_eq] at hrun
        rcases runRounds_cases round left t s₁ with ⟨n, s₂, hrun', -⟩ | ⟨_, _, _, _, n, s₂,
          _, _, hrun'⟩ |
          ⟨i, rest, t', s₂, e', s₃, hran', hfail, -⟩
        · rw [hrun] at hrun'
          cases hrun'
        · rw [hrun] at hrun'
          cases hrun'
        · have hzero := (h.error _ _ _ _ _ _ (hran.trans hran') hfail).1
          obtain ⟨hlt, -, -⟩ := h.ran hmoving hs hlim hran
          obtain ⟨hI, hleft, -⟩ := hmoving.ran hs hran
          obtain ⟨-, hle, -⟩ := (h.after hran).ran hleft hI hlt hran'
          omega
      · exact (h.error _ _ _ _ _ _ hran hfail).2 hlost
    exact ⟨hmoving.error hs hlim hrun hmoved, hmoved⟩

/-- An exact loop is smooth. -/
theorem Exact.smooth (h : Exact round lim pos Lost l s)
    (hmoving : Moving round top lim pos I Lost l) (hs : I s) (hlim : 0 < lim) :
    Smooth round top lim pos Lost l 0 s where
  error i rest t s₁ e s₂ hran hfail := by
    obtain ⟨-, hmoved⟩ := h.error e s₂ (hran.run_eq.trans (run_failed hfail))
    refine ⟨Nat.eq_zero_of_not_pos fun hpos => hmoved (.inl ⟨_, _, _, hran, hpos⟩), ?_⟩
    intro hlost
    exact hmoved (.inr ⟨_, _, _, _, _, _, hran, hfail, hlost⟩)
  -- a round that asks for more is inside a loop that still has to end
  room i rest t s₁ t' more s₂ hran hround := by
    obtain ⟨hI, hleft, -, hlim₁, hpos₁⟩ := hmoving.ran hs hran
    obtain ⟨hI', -, hlim₂, hpos₂⟩ := hleft.keeps _ List.mem_cons_self _ _ _ _ _ hI hround
    cases more with
    | false =>
      obtain ⟨hlt, hpos⟩ := h.value t' s₂ (hran.run_eq.trans (run_last hround))
      obtain ⟨hle, hmin⟩ := hpos₂ hlt
      have := hpos₁ (by omega)
      have := hmoving.below _ hI'
      exact ⟨hlt, by omega⟩
    | true =>
      have hrun := hran.run_eq.trans (run_more hround)
      have hran' := hran.trans (.next hround (.refl _ _ _))
      rcases hend : (runRounds round rest t').run s₂ with ⟨e | n, s'⟩
      · -- a loop that fails has moved nothing, this round included
        obtain ⟨-, hmoved⟩ := h.error e s' (hrun.trans hend)
        have hzero : t' = 0 := Nat.eq_zero_of_not_pos fun hpos =>
          hmoved (.inl ⟨_, _, _, hran', hpos⟩)
        have := hmoving.below _ hI
        exact ⟨by omega, by omega⟩
      · obtain ⟨hlt, hpos⟩ := h.value n s' (hrun.trans hend)
        obtain ⟨-, -, hlim₃, hpos₃⟩ := hleft.tail.value hI' hend
        obtain ⟨hle, hmin⟩ := hpos₃ hlt
        obtain ⟨hle', hmin'⟩ := hpos₂ (by omega)
        have := hpos₁ (by omega)
        exact ⟨by omega, by omega⟩

/-- A loop is exact when it is smooth, and only then. -/
theorem runRounds_exact_iff (hmoving : Moving round top lim pos I Lost l) (hs : I s)
    (hlim : 0 < lim) : Exact round lim pos Lost l s ↔ Smooth round top lim pos Lost l 0 s :=
  ⟨fun h => h.smooth hmoving hs hlim, fun h => h.exact hmoving hs hlim⟩

end Position

end Ape.Lib
