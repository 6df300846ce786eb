import Mathlib.Data.List.Basic

/-!
# `Ape.Lib.Records`: records that name their own length

Records that are laid end to end are read back by a walk that asks each record for its length and
steps over it. `splitRecords` is the walk, and `splitRecords_flatten` proves that it finds the
records when each of them names its length, whatever follows it.

`flatMap_eq_flatMap_iff` is about what a number of steps deliver of what they were given: nothing is
missing in the end exactly when no step leaves anything out.
-/

set_option autoImplicit false

namespace Ape.Lib

variable {β : Type}

/-- The walk over a list of records, of at most `fuel` records. -/
def splitRecords (len : List β → Option Nat) : Nat → List β → Option (List (List β))
  | _, [] => some []
  | 0, _ :: _ => none
  | fuel + 1, b :: bs =>
    match len (b :: bs) with
    | none => none
    | some n =>
      if n = 0 ∨ (b :: bs).length < n then none
      else (splitRecords len fuel ((b :: bs).drop n)).map ((b :: bs).take n :: ·)

variable {len : List β → Option Nat}

/-- No bytes are no records. -/
@[simp] theorem splitRecords_nil (fuel : Nat) : splitRecords len fuel [] = some [] := by
  cases fuel <;> rfl

/-- The step of the walk over a record that names its length. -/
theorem splitRecords_append {r rest : List β} (hr : r ≠ []) (hlen : len (r ++ rest) = some r.length)
    (fuel : Nat) :
    splitRecords len (fuel + 1) (r ++ rest) = (splitRecords len fuel rest).map (r :: ·) := by
  have hpos : r.length ≠ 0 := fun h => hr (List.eq_nil_of_length_eq_zero h)
  obtain ⟨b, bs, hcons⟩ := List.exists_cons_of_ne_nil (List.append_ne_nil_of_left_ne_nil hr rest)
  rw [hcons, splitRecords, ← hcons, hlen]
  have hfits : ¬ (r.length = 0 ∨ (r ++ rest).length < r.length) := by
    rw [List.length_append]
    omega
  simp only [if_neg hfits, List.drop_left, List.take_left]

/-- The walk finds records that name their length, when it may take as many steps. -/
theorem splitRecords_of_length_le {rs : List (List β)} (hne : ∀ r ∈ rs, r ≠ [])
    (hlen : ∀ r ∈ rs, ∀ rest, len (r ++ rest) = some r.length) {fuel : Nat}
    (hfuel : rs.length ≤ fuel) : splitRecords len fuel rs.flatten = some rs := by
  induction rs generalizing fuel with
  | nil => simp
  | cons r rs ih =>
    obtain ⟨n, rfl⟩ : ∃ n, fuel = n + 1 :=
      ⟨fuel - 1, by simp only [List.length_cons] at hfuel; omega⟩
    rw [List.flatten_cons, splitRecords_append (hne r List.mem_cons_self)
      (hlen r List.mem_cons_self _),
      ih (fun r hr => hne r (List.mem_cons_of_mem _ hr))
        (fun r hr => hlen r (List.mem_cons_of_mem _ hr)) (Nat.le_of_succ_le_succ hfuel)]
    rfl

/-- Records that are not empty are at most as many as their bytes. -/
theorem length_le_length_flatten {rs : List (List β)} (hne : ∀ r ∈ rs, r ≠ []) :
    rs.length ≤ rs.flatten.length := by
  induction rs with
  | nil => simp
  | cons r rs ih =>
    have hpos := List.length_pos_iff.mpr (hne r List.mem_cons_self)
    have hrest := ih fun r hr => hne r (List.mem_cons_of_mem _ hr)
    rw [List.length_cons, List.flatten_cons, List.length_append]
    omega

/-- A step for each element is enough. -/
theorem splitRecords_flatten {rs : List (List β)} (hne : ∀ r ∈ rs, r ≠ [])
    (hlen : ∀ r ∈ rs, ∀ rest, len (r ++ rest) = some r.length) :
    splitRecords len rs.flatten.length rs.flatten = some rs :=
  splitRecords_of_length_le hne hlen (length_le_length_flatten hne)

/-! ### Steps that deliver a prefix -/

section Prefixes

variable {ι : Type} {given delivered : ι → List β}

/-- Steps that deliver a prefix of what they are given deliver no more than it. -/
theorem length_flatMap_le {steps : List ι} (h : ∀ i ∈ steps, delivered i <+: given i) :
    (steps.flatMap delivered).length ≤ (steps.flatMap given).length := by
  induction steps with
  | nil => exact Nat.le_refl _
  | cons i steps ih =>
    have hfirst := (h i List.mem_cons_self).length_le
    have hrest := ih fun j hj => h j (List.mem_cons_of_mem i hj)
    rw [List.flatMap_cons, List.flatMap_cons, List.length_append, List.length_append]
    omega

/-- Steps that each deliver a prefix of what they were given deliver everything in the end exactly
when each of them does. -/
theorem flatMap_eq_flatMap_iff {steps : List ι} (h : ∀ i ∈ steps, delivered i <+: given i) :
    steps.flatMap delivered = steps.flatMap given ↔ ∀ i ∈ steps, delivered i = given i := by
  constructor
  · induction steps with
    | nil => simp
    | cons i steps ih =>
      intro heq
      have hprefix : ∀ j ∈ steps, delivered j <+: given j := fun j hj =>
        h j (List.mem_cons_of_mem i hj)
      have hle := (h i List.mem_cons_self).length_le
      have hrest := length_flatMap_le hprefix
      rw [List.flatMap_cons, List.flatMap_cons] at heq
      have hlen := congrArg List.length heq
      rw [List.length_append, List.length_append] at hlen
      obtain ⟨hfirst, hsteps⟩ := List.append_inj heq (by omega)
      intro j hj
      rcases List.mem_cons.mp hj with rfl | hj
      · exact hfirst
      · exact ih hprefix hsteps j hj
  · exact List.flatMap_congr

end Prefixes

end Ape.Lib
