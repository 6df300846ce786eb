import Ape.Lib.OrdMap
import Mathlib.Logic.Function.Basic

/-!
# `Ape.Lib.Spans`: families of address ranges

A family `f : ι → Option Span` names at most one range for each index. `Apart f` says that no
address is in two of them, and `Clear f v n` that none of them meets the `n` addresses from
`v` on. A family grows by a range that is clear, and loses ranges freely.

A range of whole pages has all of a page or nothing of it, so a test of one address decides
for its page.

The last part is about a map that files each range under its start. The greatest key at or
below an address is then the only candidate: with ranges that are apart it finds the range of
the address when there is one.
-/

set_option autoImplicit false

namespace Ape.Lib

/-- The `len` addresses from `start` on. -/
structure Span where
  start : Nat
  len : Nat
  deriving DecidableEq

namespace Span

/-- The address is in the range. -/
def Has (s : Span) (x : Nat) : Prop := s.start ≤ x ∧ x < s.start + s.len

instance (s : Span) (x : Nat) : Decidable (s.Has x) := inferInstanceAs (Decidable (_ ∧ _))

/-- The range is made of pages of `p` addresses, at least one. -/
def Paged (p : Nat) (s : Span) : Prop := s.start % p = 0 ∧ s.len % p = 0 ∧ 0 < s.len

/-- A bound at a page boundary is on the same side of all of a page. -/
theorem le_of_page {p b x y : Nat} (hb : b % p = 0) (hxy : x / p = y / p)
    (hbx : b ≤ x) : b ≤ y := by
  obtain ⟨c, rfl⟩ := Nat.dvd_of_mod_eq_zero hb
  rcases Nat.eq_zero_or_pos p with rfl | hp
  · simp
  · have hc : c ≤ x / p := (Nat.le_div_iff_mul_le hp).mpr (by rwa [Nat.mul_comm])
    rw [hxy, Nat.le_div_iff_mul_le hp, Nat.mul_comm] at hc
    exact hc

/-- A range of pages has every address of a page or none. -/
theorem Paged.has_iff {p : Nat} {s : Span} (h : s.Paged p) {x y : Nat} (hxy : x / p = y / p) :
    s.Has x ↔ s.Has y := by
  obtain ⟨hstart, hlen, -⟩ := h
  have hend : (s.start + s.len) % p = 0 := by rw [Nat.add_mod, hstart, hlen]; simp
  unfold Has
  constructor
  · rintro ⟨hlo, hhi⟩
    refine ⟨le_of_page hstart hxy hlo, ?_⟩
    by_contra hge
    exact absurd (le_of_page hend hxy.symm (not_lt.mp hge)) (not_le.mpr hhi)
  · rintro ⟨hlo, hhi⟩
    refine ⟨le_of_page hstart hxy.symm hlo, ?_⟩
    by_contra hge
    exact absurd (le_of_page hend hxy (not_lt.mp hge)) (not_le.mpr hhi)

end Span

section Families

variable {ι : Type} {f g : ι → Option Span}

/-- No address is in two ranges of the family. -/
def Apart (f : ι → Option Span) : Prop :=
  ∀ i j s t x, f i = some s → f j = some t → s.Has x → t.Has x → i = j

/-- No range of the family meets the `n` addresses from `v` on. -/
def Clear (f : ι → Option Span) (v n : Nat) : Prop :=
  ∀ i s x, f i = some s → v ≤ x → x < v + n → ¬ s.Has x

/-- Fewer ranges are apart when more are. -/
theorem Apart.mono (h : Apart f) (hsub : ∀ i s, g i = some s → f i = some s) : Apart g :=
  fun i j s t x hs ht => h i j s t x (hsub i s hs) (hsub j t ht)

/-- Where fewer intervals are, more is clear. -/
theorem Clear.mono {v n : Nat} (h : Clear f v n) (hsub : ∀ i s, g i = some s → f i = some s) :
    Clear g v n :=
  fun i s x hs => h i s x (hsub i s hs)

/-- Part of what is clear is clear. -/
theorem Clear.sub {v n v' n' : Nat} (h : Clear f v n) (hlo : v ≤ v') (hhi : v' + n' ≤ v + n) :
    Clear f v' n' :=
  fun i s x hs hx hx' => h i s x hs (hlo.trans hx) (hx'.trans_le hhi)

/-- A clear range can be added, at any index. -/
theorem Apart.insert [DecidableEq ι] (h : Apart f) {i : ι} {s : Span}
    (hclear : Clear f s.start s.len) : Apart (Function.update f i (some s)) := by
  intro j k t u x ht hu hxt hxu
  by_cases hj : j = i <;> by_cases hk : k = i
  · rw [hj, hk]
  · rw [hj, Function.update_self] at ht
    rw [Function.update_of_ne hk] at hu
    cases ht
    exact absurd hxu (hclear k u x hu hxt.1 hxt.2)
  · rw [Function.update_of_ne hj] at ht
    rw [hk, Function.update_self] at hu
    cases hu
    exact absurd hxt (hclear j t x ht hxu.1 hxu.2)
  · rw [Function.update_of_ne hj] at ht
    rw [Function.update_of_ne hk] at hu
    exact h j k t u x ht hu hxt hxu

/-- What is clear stays clear when a range beside it is added. -/
theorem Clear.insert [DecidableEq ι] {v n : Nat} (h : Clear f v n) {i : ι} {s : Span}
    (hbeside : s.start + s.len ≤ v ∨ v + n ≤ s.start) :
    Clear (Function.update f i (some s)) v n := by
  intro j t x ht hlo hhi hx
  by_cases hj : j = i
  · rw [hj, Function.update_self] at ht
    cases ht
    have hx' := hx.1
    have hx'' := hx.2
    omega
  · rw [Function.update_of_ne hj] at ht
    exact h j t x ht hlo hhi hx

/-- What the dropped ranges of a family had is clear. -/
theorem Clear.of_dropped (h : Apart f) (hsub : ∀ i s, g i = some s → f i = some s) {v n : Nat}
    (hdrop : ∀ x, v ≤ x → x < v + n → ∃ i s, f i = some s ∧ s.Has x ∧ g i = none) :
    Clear g v n := by
  intro j t x ht hlo hhi hx
  obtain ⟨i, s, hs, hxs, hnone⟩ := hdrop x hlo hhi
  rw [h i j s t x hs (hsub j t ht) hxs hx, ht] at hnone
  cases hnone

/-- The addresses of the page of `a`. -/
theorem div_eq_of_page {p a x : Nat} (hpos : 0 < p) (hlo : a / p * p ≤ x)
    (hhi : x < a / p * p + p) :
    x / p = a / p := by
  have hle : a / p ≤ x / p := (Nat.le_div_iff_mul_le hpos).mpr hlo
  have hlt : x / p < a / p + 1 := by
    rw [Nat.div_lt_iff_lt_mul hpos, Nat.add_mul]
    omega
  omega

/-- For ranges of pages, one address decides for its page. -/
theorem Clear.of_page {p : Nat} (hp : ∀ i s, f i = some s → s.Paged p) {a : Nat} (hpos : 0 < p)
    (h : ∀ i s, f i = some s → ¬ s.Has a) : Clear f (a / p * p) p := by
  intro i s x hs hlo hhi hx
  exact h i s hs (((hp i s hs).has_iff (div_eq_of_page hpos hlo hhi)).mp hx)

end Families

/-- The greatest key at or below an address finds the range that has the address, when every
range is filed under its start and the ranges are apart. -/
theorem OrdMap.floor?_of_has {ν : Type} {m : OrdMap Nat ν} {span : ν → Span}
    (hkey : ∀ k v, m.get? k = some v → (span v).start = k ∧ 0 < (span v).len)
    (hapart : Apart fun k => (m.get? k).map span) {a k : Nat} {v : ν} (hk : m.get? k = some v)
    (ha : (span v).Has a) : m.floor? a = some (k, v) := by
  refine OrdMap.floor?_eq_some.mpr ⟨hk, (hkey k v hk).1 ▸ ha.1, fun j u hj hja => ?_⟩
  by_contra hlt
  -- a greater key would start inside the range
  have hstart := (hkey j u hj).1
  have hhas : (span v).Has j := by
    have hs := (hkey k v hk).1
    have ha' := ha.2
    exact ⟨by omega, by omega⟩
  have hself : (span u).Has j := by
    have hpos := (hkey j u hj).2
    exact ⟨by omega, by omega⟩
  have heq := hapart k j (span v) (span u) j (by simp [hk]) (by simp [hj]) hhas hself
  omega

end Ape.Lib
