import Mathlib.Data.List.Basic

/-!
# `Ape.Lib.Debts`: histories whose events are answered

Some events of a history need an answer: a later event of the same history. `Owing debt l` says
that every event of `l` that needs an answer has one, apart from the events in `debt`. A proof
about a program carries the events that are still to be answered in `debt`: an event that needs
an answer adds itself, and an answer takes out what it answers.
-/

set_option autoImplicit false

namespace Ape.Lib

variable {ε : Type} (needs : ε → Prop) (answers : ε → ε → Prop)

/-- Every event of the history that needs an answer has one later on, or is a debt. -/
def Owing (debt : ε → Prop) : List ε → Prop
  | [] => True
  | e :: rest => (needs e → (∃ a ∈ rest, answers a e) ∨ debt e) ∧ Owing debt rest

variable {needs answers} {debt debt' : ε → Prop}

namespace Owing

/-- More may be owed. -/
theorem mono {l : List ε} (h : Owing needs answers debt l) (hd : ∀ d, debt d → debt' d) :
    Owing needs answers debt' l := by
  induction l with
  | nil => trivial
  | cons e rest ih => exact ⟨fun hn => (h.1 hn).imp_right (hd e), ih h.2⟩

/-- A new event answers some of the debts, and may be one itself. -/
theorem append_one {l : List ε} {e : ε} (h : Owing needs answers debt l)
    (hold : ∀ d, debt d → ¬ answers e d → debt' d) (hnew : needs e → debt' e) :
    Owing needs answers debt' (l ++ [e]) := by
  induction l with
  | nil => exact ⟨fun hn => .inr (hnew hn), trivial⟩
  | cons d rest ih =>
    refine ⟨?_, ih h.2⟩
    intro hn
    rcases h.1 hn with ⟨a, ha, hans⟩ | hdebt
    · exact .inl ⟨a, List.mem_append_left _ ha, hans⟩
    · by_cases hans : answers e d
      · exact .inl ⟨e, List.mem_append_right _ (List.mem_singleton_self e), hans⟩
      · exact .inr (hold d hdebt hans)

/-- A history without debts answers each of its events. -/
theorem answered {l pre post : List ε} {e : ε} (h : Owing needs answers (fun _ => False) l)
    (hl : l = pre ++ e :: post) (hn : needs e) : ∃ a ∈ post, answers a e := by
  subst hl
  induction pre with
  | nil => exact (h.1 hn).resolve_right id
  | cons d rest ih => exact ih h.2

end Owing

end Ape.Lib
