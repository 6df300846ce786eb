import Mathlib.Data.List.Dedup

/-!
# `Ape.Lib.Recency`: the order of last use

A history of uses is a list, the last use at its end. `List.dedup` keeps the last occurrence of each
item, so `uses.dedup` has every item once, in the order of last use. A use takes the item out of
that order and puts it at the end (`dedup_concat`), and the first item is the one whose last use is
the oldest (`oldest_of_dedup`).
-/

set_option autoImplicit false

namespace Ape.Lib

variable {α : Type} [DecidableEq α]

/-- Since the last use of `x`, every other item of the history was used. -/
def Oldest (uses : List α) (x : α) : Prop :=
  ∃ front back, uses = front ++ x :: back ∧ x ∉ back ∧ ∀ y ∈ uses, y ≠ x → y ∈ back

/-- One more use moves its element to the end. -/
theorem dedup_concat (uses : List α) (x : α) :
    (uses ++ [x]).dedup = uses.dedup.erase x ++ [x] := by
  induction uses with
  | nil => rfl
  | cons y uses ih =>
    rw [List.cons_append]
    by_cases hmem : y ∈ uses
    · rw [List.dedup_cons_of_mem (List.mem_append_left _ hmem), List.dedup_cons_of_mem hmem, ih]
    -- a use that is not repeated stays where it is, unless it is the one of `x`
    rw [List.dedup_cons_of_notMem hmem]
    by_cases heq : y = x
    · -- the earlier use goes
      subst heq
      rw [List.dedup_cons_of_mem (List.mem_append_right _ (List.mem_singleton_self y)), ih,
        List.erase_cons_head, List.erase_of_not_mem fun h => hmem (List.mem_dedup.mp h)]
    · have hnot : y ∉ uses ++ [x] := by
        rw [List.mem_append, List.mem_singleton]
        rintro (h | h)
        · exact hmem h
        · exact heq h
      rw [List.dedup_cons_of_notMem hnot, ih, List.erase_cons_tail (by simpa using heq),
        List.cons_append]

/-- The first element without its repetitions is the one that was used longest ago. -/
theorem oldest_of_dedup {uses rest : List α} {x : α} (h : uses.dedup = x :: rest) :
    Oldest uses x := by
  induction uses with
  | nil => cases h
  | cons y uses ih =>
    by_cases hmem : y ∈ uses
    · rw [List.dedup_cons_of_mem hmem] at h
      obtain ⟨front, back, heq, hx, hall⟩ := ih h
      refine ⟨y :: front, back, congrArg (y :: ·) heq, hx, ?_⟩
      intro z hz hne
      rcases List.mem_cons.mp hz with rfl | hz
      · exact hall z hmem hne
      · exact hall z hz hne
    · rw [List.dedup_cons_of_notMem hmem] at h
      cases h
      refine ⟨[], uses, rfl, hmem, ?_⟩
      intro z hz hne
      exact (List.mem_cons.mp hz).resolve_left hne

end Ape.Lib
