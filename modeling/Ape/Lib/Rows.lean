import Mathlib.Data.List.Basic

/-!
# `Ape.Lib.Rows`: pieces in a row

A piece is a place and the items from there on. `InRow l a b` says that the pieces of `l` lie one
after the other from `a` up to `b`. Pieces in a row lie within the row, and no two of them overlap.
-/

set_option autoImplicit false

namespace Ape.Lib

variable {α : Type}

/-- A piece: where it starts, and its items. -/
abbrev Piece (α : Type) := Nat × List α

/-- The pieces lie one after the other from `a` up to `b`. -/
def InRow : List (Piece α) → Nat → Nat → Prop
  | [], a, b => a = b
  | p :: rest, a, b => p.1 = a ∧ InRow rest (a + p.2.length) b

/-- The pieces do not overlap. -/
def Beside (p q : Piece α) : Prop := p.1 + p.2.length ≤ q.1 ∨ q.1 + q.2.length ≤ p.1

/-- To lie beside is symmetric. -/
theorem Beside.symm {p q : Piece α} (h : Beside p q) : Beside q p := Or.symm h

namespace InRow

variable {l l' : List (Piece α)} {p : Piece α} {a b c : Nat}

/-- Two rows, one behind the other, are a row. -/
theorem append (h : InRow l a b) (h' : InRow l' b c) : InRow (l ++ l') a c := by
  induction l generalizing a with
  | nil => exact (show a = b from h) ▸ h'
  | cons p rest ih => exact ⟨h.1, ih h.2⟩

/-- One piece is a row. -/
theorem single (a : Nat) (bs : List α) : InRow [(a, bs)] a (a + bs.length) := ⟨rfl, rfl⟩

/-- A row ends where it starts or later. -/
theorem le (h : InRow l a b) : a ≤ b := by
  induction l generalizing a with
  | nil => exact Nat.le_of_eq h
  | cons p rest ih => exact Nat.le_trans (Nat.le_add_right _ _) (ih h.2)

/-- A piece lies within its row. -/
theorem within (h : InRow l a b) (hp : p ∈ l) : a ≤ p.1 ∧ p.1 + p.2.length ≤ b := by
  induction l generalizing a with
  | nil => cases hp
  | cons q rest ih =>
    rcases List.mem_cons.mp hp with rfl | hrest
    · exact ⟨Nat.le_of_eq h.1.symm, h.1 ▸ h.2.le⟩
    · obtain ⟨hlo, hhi⟩ := ih h.2 hrest
      exact ⟨Nat.le_trans (Nat.le_add_right _ _) hlo, hhi⟩

/-- No two pieces of a row overlap. -/
theorem beside (h : InRow l a b) : l.Pairwise Beside := by
  induction l generalizing a with
  | nil => exact List.Pairwise.nil
  | cons p rest ih =>
    refine List.Pairwise.cons (fun q hq => ?_) (ih h.2)
    have hlo := (h.2.within hq).1
    exact .inl (h.1 ▸ hlo)

/-- No piece of a row overlaps with one of a row that starts after it. -/
theorem beside_of_le (h : InRow l a b) {a' b' : Nat} (h' : InRow l' a' b') (hle : b ≤ a')
    {q : Piece α} (hp : p ∈ l) (hq : q ∈ l') : Beside p q :=
  .inl (Nat.le_trans (Nat.le_trans (h.within hp).2 hle) (h'.within hq).1)

end InRow

end Ape.Lib
