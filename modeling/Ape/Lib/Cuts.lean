import Mathlib.Data.List.ReduceOption
import Mathlib.Data.List.Infix

/-!
# `Ape.Lib.Cuts`: lists with cuts

A filter that removes parts of a list leaves a list with cuts: `some a` for a value that
stays, and `none` where a part was removed. `reduceOption` is what the filter puts out. A
pattern `P` of the output can lie in one piece, or it can span a cut.

`Unbroken P ts` says that no pattern lies in one piece. Then the output is free of the
pattern exactly when no pattern spans a cut (`free_iff`).
-/

set_option autoImplicit false

namespace Ape.Lib.Cuts

variable {α : Type} {P : List α → Prop} {ts ts' : List (Option α)}

/-- No part of the list is a pattern. -/
def Free (P : List α → Prop) (out : List α) : Prop := ∀ q, q <:+: out → ¬ P q

/-- No pattern lies in one piece. -/
def Unbroken (P : List α → Prop) (ts : List (Option α)) : Prop :=
  ∀ q : List α, q.map some <:+: ts → ¬ P q

/-- A pattern spans a cut. -/
def Straddled (P : List α → Prop) (ts : List (Option α)) : Prop :=
  ∃ x mid y, some x :: mid ++ [some y] <:+: ts ∧ none ∈ mid ∧ P (x :: mid.reduceOption ++ [y])

/-- A stretch of unbroken tokens is unbroken. -/
theorem Unbroken.mono (h : Unbroken P ts) (hsub : ts' <:+: ts) : Unbroken P ts' :=
  fun q hq => h q (hq.trans hsub)

/-- A list without cuts is its values. -/
theorem eq_map_some_of_none_notMem {l : List (Option α)} (h : none ∉ l) :
    l = l.reduceOption.map some := by
  induction l with
  | nil => rfl
  | cons t l ih =>
    rw [List.mem_cons, not_or] at h
    cases t with
    | none => exact absurd rfl h.1
    | some x =>
      rw [List.reduceOption_cons_of_some, List.map_cons]
      exact congrArg (some x :: ·) (ih h.2)

/-- The part of a list with cuts that has given values, from the first value to the last. -/
theorem exists_between {x y : α} {m : List α} (h : ts.reduceOption = x :: (m ++ [y])) :
    ∃ before mid after, ts = before ++ (some x :: mid ++ [some y]) ++ after ∧
      mid.reduceOption = m := by
  have hsplit : ts.reduceOption = (x :: m).concat y := by
    rw [h, List.concat_eq_append]
    rfl
  obtain ⟨l₁, after, rfl, hl₁, -⟩ := (List.reduceOption_eq_concat_iff _ _ _).mp hsplit
  have hhead : l₁.reduceOption = [x] ++ m := hl₁
  obtain ⟨l₂, mid, rfl, hl₂, hmid⟩ := (List.reduceOption_eq_append_iff _ _ _).mp hhead
  obtain ⟨i, j, rfl⟩ := (List.reduceOption_eq_singleton_iff _ _).mp hl₂
  refine ⟨List.replicate i none, List.replicate j none ++ mid, after, ?_, ?_⟩
  · simp
  · rw [List.reduceOption_append, List.reduceOption_replicate_none, hmid]
    rfl

/-- Where no pattern lies in one piece, the output is free of patterns exactly when none spans
a cut. -/
theorem free_iff (hlong : ∀ q, P q → 2 ≤ q.length) (h : Unbroken P ts) :
    Free P ts.reduceOption ↔ ¬ Straddled P ts := by
  constructor
  · rintro hfree ⟨x, mid, y, ⟨before, after, rfl⟩, -, hpat⟩
    refine hfree _ ⟨before.reduceOption, after.reduceOption, ?_⟩ hpat
    simp [List.reduceOption_append]
  · rintro hnone q ⟨before, after, hout⟩ hpat
    -- the values of the pattern stand somewhere in the list with cuts
    obtain ⟨l₁, l₂, hts, hl₁, -⟩ := (List.reduceOption_eq_append_iff _ _ _).mp hout.symm
    obtain ⟨l₃, l₄, rfl, -, hl₄⟩ := (List.reduceOption_eq_append_iff _ _ _).mp hl₁
    obtain ⟨x, m, y, rfl⟩ : ∃ x m y, q = x :: (m ++ [y]) := by
      have hlen := hlong q hpat
      cases q with
      | nil => exact absurd hlen (Nat.not_succ_le_zero 1)
      | cons x q =>
        have hne : q ≠ [] := by
          rintro rfl
          exact absurd hlen (Nat.lt_irrefl 1)
        exact ⟨x, q.dropLast, q.getLast hne, by rw [List.dropLast_append_getLast hne]⟩
    obtain ⟨pre, mid, post, rfl, rfl⟩ := exists_between hl₄
    have hinfix : some x :: mid ++ [some y] <:+: ts := by
      refine ⟨l₃ ++ pre, post ++ l₂, ?_⟩
      rw [hts]
      simp
    by_cases hcut : none ∈ mid
    · exact hnone ⟨x, mid, y, hinfix, hcut, hpat⟩
    · -- without a cut the pattern lies in one piece
      refine h _ ?_ hpat
      rw [List.map_cons, List.map_append, ← eq_map_some_of_none_notMem hcut]
      exact hinfix

/-- A cut keeps the patterns of its sides apart. -/
theorem Unbroken.append (h : Unbroken P ts) (h' : Unbroken P ts') (hnil : ¬ P []) :
    Unbroken P (ts ++ none :: ts') := by
  rintro q ⟨before, after, heq⟩ hpat
  have hmem : none ∉ q.map some := by
    intro hmem
    obtain ⟨x, -, hx⟩ := List.mem_map.mp hmem
    cases hx
  rw [List.append_eq_append_iff] at heq
  rcases heq with ⟨rest, hts, -⟩ | ⟨rest, hleft, hright⟩
  · exact h q ⟨before, rest, hts.symm⟩ hpat
  rw [List.append_eq_append_iff] at hleft
  rcases hleft with ⟨front, rfl, hq⟩ | ⟨tail, -, rfl⟩
  · -- the pattern starts before the cut, so it ends there too
    cases rest with
    | nil =>
      rw [List.append_nil] at hq
      exact h q ⟨before, [], by rw [hq, List.append_nil]⟩ hpat
    | cons t rest =>
      rw [List.cons_append] at hright
      cases hright
      exact hmem (by rw [hq]; simp)
  · cases tail with
    | nil =>
      -- a pattern does not start with a cut
      cases q with
      | nil => exact hnil hpat
      | cons x q => cases hright
    | cons t tail =>
      rw [List.cons_append, List.cons_append] at hright
      cases hright
      exact h' q ⟨tail, after, rfl⟩ hpat

/-- The list up to its value number `k`. -/
def takeValues : Nat → List (Option α) → List (Option α)
  | 0, _ => []
  | _ + 1, [] => []
  | k + 1, none :: ts => none :: takeValues (k + 1) ts
  | k + 1, some x :: ts => some x :: takeValues k ts

/-- The tokens up to the `k`th value are a prefix. -/
theorem takeValues_prefix (k : Nat) (ts : List (Option α)) : takeValues k ts <+: ts := by
  induction ts generalizing k with
  | nil => cases k <;> exact List.prefix_refl _
  | cons t ts ih =>
    cases k with
    | zero => exact List.nil_prefix
    | succ k =>
      cases t with
      | none => exact (List.prefix_cons_inj _).mpr (ih (k + 1))
      | some x => exact (List.prefix_cons_inj _).mpr (ih k)

/-- The tokens up to the `k`th value have the first `k` values. -/
theorem reduceOption_takeValues (k : Nat) (ts : List (Option α)) :
    (takeValues k ts).reduceOption = ts.reduceOption.take k := by
  induction ts generalizing k with
  | nil => cases k <;> rfl
  | cons t ts ih =>
    cases k with
    | zero => rfl
    | succ k =>
      cases t with
      | none => exact ih (k + 1)
      | some x => exact congrArg (x :: ·) (ih k)

end Ape.Lib.Cuts
