import Mathlib.Order.Defs.LinearOrder
import Mathlib.Order.Basic
import Mathlib.Data.List.Sort
import Mathlib.Algebra.BigOperators.Group.List.Basic
import Mathlib.Algebra.GroupWithZero.Nat

/-!
# `Ape.Lib.OrdMap`: finite maps with ordered keys

`OrdMap κ ν` is a finite map whose entries are a list with strictly increasing keys. The
list is canonical: two maps with the same lookups are equal (`OrdMap.ext_get?`). Every
operation is structural on the list, so a map of fixed entries evaluates.

`floor?` returns the entry with the greatest key that is at most `k`, and `floor?_eq_some`
says so. `total f m` is the sum of `f` over the values, for counting arguments. Inserting,
erasing and changing one entry move `total` by that entry alone.
-/

set_option autoImplicit false

namespace Ape.Lib

/-- A finite map as a list of entries with strictly increasing keys. -/
structure OrdMap (κ : Type) [LinearOrder κ] (ν : Type) where
  entries : List (κ × ν)
  sorted : entries.Pairwise fun a b => a.1 < b.1

namespace OrdMap

variable {κ ν : Type} [LinearOrder κ]

/-- The map without entries. -/
def empty : OrdMap κ ν := ⟨[], List.Pairwise.nil⟩

instance : Inhabited (OrdMap κ ν) := ⟨empty⟩

/-- The entry list with `(k, v)` put at its place. -/
def insertEntries (k : κ) (v : ν) : List (κ × ν) → List (κ × ν)
  | [] => [(k, v)]
  | e :: es =>
    if k < e.1 then (k, v) :: e :: es
    else if k = e.1 then (k, v) :: es
    else e :: insertEntries k v es

/-- An entry after an insertion is the new one or an old one. -/
theorem mem_insertEntries {k : κ} {v : ν} {es : List (κ × ν)} {e : κ × ν}
    (h : e ∈ insertEntries k v es) : e = (k, v) ∨ e ∈ es := by
  induction es with
  | nil => simpa [insertEntries] using h
  | cons d es ih =>
    unfold insertEntries at h
    split at h
    · simpa using h
    · split at h
      · rcases List.mem_cons.mp h with h | h
        · exact .inl h
        · exact .inr (List.mem_cons_of_mem _ h)
      · rcases List.mem_cons.mp h with h | h
        · exact .inr (by simp [h])
        · exact (ih h).imp_right (List.mem_cons_of_mem _)

/-- An insertion keeps the entries sorted by key. -/
theorem insertEntries_sorted (k : κ) (v : ν) {es : List (κ × ν)}
    (hs : es.Pairwise fun a b => a.1 < b.1) :
    (insertEntries k v es).Pairwise fun a b => a.1 < b.1 := by
  induction es with
  | nil => simp [insertEntries]
  | cons d es ih =>
    -- the entries behind the head have larger keys, and the new key is compared with the head's
    obtain ⟨hd, hes⟩ := List.pairwise_cons.mp hs
    unfold insertEntries
    split
    · rename_i hlt
      refine List.pairwise_cons.mpr ⟨?_, hs⟩
      intro e he
      rcases List.mem_cons.mp he with rfl | he
      · exact hlt
      · exact hlt.trans (hd e he)
    · split
      · rename_i heq
        exact List.pairwise_cons.mpr ⟨fun e he => heq ▸ hd e he, hes⟩
      · rename_i hlt hne
        refine List.pairwise_cons.mpr ⟨?_, ih hes⟩
        intro e he
        rcases mem_insertEntries he with rfl | he
        · exact lt_of_le_of_ne (not_lt.mp hlt) (Ne.symm hne)
        · exact hd e he

/-- The value at `k`. -/
def get? (m : OrdMap κ ν) (k : κ) : Option ν :=
  (m.entries.find? fun e => e.1 = k).map (·.2)

/-- Set the value at `k`. -/
def insert (m : OrdMap κ ν) (k : κ) (v : ν) : OrdMap κ ν :=
  ⟨insertEntries k v m.entries, insertEntries_sorted k v m.sorted⟩

/-- Remove the entry at `k`. -/
def erase (m : OrdMap κ ν) (k : κ) : OrdMap κ ν :=
  ⟨m.entries.filter fun e => e.1 ≠ k, m.sorted.filter _⟩

/-- Change the value at `k`, if there is one. -/
def modify (m : OrdMap κ ν) (k : κ) (f : ν → ν) : OrdMap κ ν :=
  ⟨m.entries.map fun e => if e.1 = k then (e.1, f e.2) else e, by
    refine List.pairwise_map.mpr (m.sorted.imp fun {a b} h => ?_)
    split <;> split <;> exact h⟩

/-- The map with `v` at `k`, unless `k` already has a value. -/
def orInsert (m : OrdMap κ ν) (k : κ) (v : ν) : OrdMap κ ν :=
  match m.get? k with
  | some _ => m
  | none => m.insert k v

/-- The map with `g` applied to every value. -/
def mapValues {μ : Type} (g : ν → μ) (m : OrdMap κ ν) : OrdMap κ μ :=
  ⟨m.entries.map fun e => (e.1, g e.2), List.pairwise_map.mpr m.sorted⟩

/-- The keys, in increasing order. -/
def keys (m : OrdMap κ ν) : List κ := m.entries.map (·.1)

/-- The values, in the order of their keys. -/
def values (m : OrdMap κ ν) : List ν := m.entries.map (·.2)

/-- The entry with the greatest key that is at most `k`. -/
def floor? (m : OrdMap κ ν) (k : κ) : Option (κ × ν) :=
  (m.entries.filter fun e => e.1 ≤ k).getLast?

/-- Whether `k` has a value. -/
def contains (m : OrdMap κ ν) (k : κ) : Bool := (m.get? k).isSome

/-- The sum of `f` over the values. -/
def total (f : ν → Nat) (m : OrdMap κ ν) : Nat := (m.values.map f).sum

/-! ### Lookups -/

/-- Keys are unique: an entry of the list is the value at its key. -/
theorem mem_entries {m : OrdMap κ ν} {k : κ} {v : ν} :
    (k, v) ∈ m.entries ↔ m.get? k = some v := by
  obtain ⟨es, hs⟩ := m
  unfold get?
  show (k, v) ∈ es ↔ (es.find? fun e => e.1 = k).map (·.2) = some v
  induction es with
  | nil => simp
  | cons d es ih =>
    obtain ⟨hd, hes⟩ := List.pairwise_cons.mp hs
    by_cases hk : d.1 = k
    · have hne : (k, v) ∉ es := fun h => absurd (hd _ h) (by simp [hk])
      simp only [List.mem_cons, hne, or_false, List.find?_cons, hk, decide_true, Option.map_some,
        Option.some.injEq]
      constructor
      · rintro rfl; rfl
      · rintro rfl; exact Prod.ext hk.symm rfl
    · rw [List.find?_cons, decide_eq_false hk, List.mem_cons, ih hes]
      exact or_iff_right fun h => hk (by rw [← h])

/-- The empty map has no entries. -/
@[simp] theorem get?_empty (k : κ) : (empty : OrdMap κ ν).get? k = none := rfl

/-- Maps with the same lookups are equal, since the entries are sorted. -/
theorem ext_get? {m m' : OrdMap κ ν} (h : ∀ k, m.get? k = m'.get? k) : m = m' := by
  have hmem : ∀ e, e ∈ m.entries ↔ e ∈ m'.entries := by
    intro e
    rw [show e = (e.1, e.2) from rfl, mem_entries, mem_entries, h]
  have hperm : m.entries.Perm m'.entries :=
    (List.perm_ext_iff_of_nodup (m.sorted.imp fun hab => fun hc => absurd (hc ▸ hab) (lt_irrefl _))
      (m'.sorted.imp fun hab => fun hc => absurd (hc ▸ hab) (lt_irrefl _))).mpr hmem
  have heq : m.entries = m'.entries :=
    hperm.eq_of_pairwise (fun a b _ _ hab hba => absurd (hab.trans hba) (lt_irrefl _))
      m.sorted m'.sorted
  obtain ⟨es, hs⟩ := m
  obtain ⟨es', hs'⟩ := m'
  cases heq
  rfl

/-- The inserted entry is there. -/
theorem mem_insertEntries_self (k : κ) (v : ν) (es : List (κ × ν)) :
    (k, v) ∈ insertEntries k v es := by
  induction es with
  | nil => simp [insertEntries]
  | cons d es ih =>
    unfold insertEntries
    split
    · simp
    · split
      · simp
      · exact List.mem_cons_of_mem _ ih

/-- Entries at other keys survive an insertion. -/
theorem mem_insertEntries_of_ne {k : κ} {v : ν} {es : List (κ × ν)} {e : κ × ν} (he : e ∈ es)
    (hk : e.1 ≠ k) : e ∈ insertEntries k v es := by
  induction es with
  | nil => simp at he
  | cons d es ih =>
    unfold insertEntries
    split
    · exact List.mem_cons_of_mem _ he
    · split
      · rename_i heq
        rcases List.mem_cons.mp he with rfl | he
        · exact absurd heq.symm hk
        · exact List.mem_cons_of_mem _ he
      · rcases List.mem_cons.mp he with rfl | he
        · simp
        · exact List.mem_cons_of_mem _ (ih he)

/-- The inserted key has the inserted value. -/
@[simp] theorem get?_insert_self (m : OrdMap κ ν) (k : κ) (v : ν) :
    (m.insert k v).get? k = some v :=
  mem_entries.mp (mem_insertEntries_self k v m.entries)

/-- Other keys look up as before an insertion. -/
@[simp] theorem get?_insert_ne (m : OrdMap κ ν) {k k' : κ} (v : ν) (h : k' ≠ k) :
    (m.insert k v).get? k' = m.get? k' := by
  refine Option.ext fun u => ?_
  rw [← mem_entries, ← mem_entries]
  constructor
  · intro hu
    rcases mem_insertEntries hu with hu | hu
    · exact absurd (congrArg Prod.fst hu) h
    · exact hu
  · exact fun hu => mem_insertEntries_of_ne hu h

/-- What a lookup finds after an insertion. -/
theorem get?_insert (m : OrdMap κ ν) (k k' : κ) (v : ν) :
    (m.insert k v).get? k' = if k' = k then some v else m.get? k' := by
  split
  · rename_i h; rw [h, get?_insert_self]
  · rename_i h; exact get?_insert_ne m v h

/-- What a lookup finds after a removal. -/
theorem get?_erase (m : OrdMap κ ν) (k k' : κ) :
    (m.erase k).get? k' = if k' = k then none else m.get? k' := by
  refine Option.ext fun u => ?_
  rw [← mem_entries]
  by_cases h : k' = k
  · simp [erase, h]
  · rw [if_neg h, ← mem_entries]
    simp [erase, h]

/-- The removed key has no value. -/
@[simp] theorem get?_erase_self (m : OrdMap κ ν) (k : κ) : (m.erase k).get? k = none := by
  rw [get?_erase, if_pos rfl]

/-- Other keys look up as before a removal. -/
@[simp] theorem get?_erase_ne (m : OrdMap κ ν) {k k' : κ} (h : k' ≠ k) :
    (m.erase k).get? k' = m.get? k' := by
  rw [get?_erase, if_neg h]

/-- Where a value found after an insertion comes from. -/
theorem get?_insert_eq_some {m : OrdMap κ ν} {k k' : κ} {v u : ν} :
    (m.insert k v).get? k' = some u ↔ (k' = k ∧ v = u) ∨ (k' ≠ k ∧ m.get? k' = some u) := by
  rw [get?_insert]
  split <;> simp_all

/-- A value found after a removal was there, at another key. -/
theorem get?_erase_eq_some {m : OrdMap κ ν} {k k' : κ} {u : ν} :
    (m.erase k).get? k' = some u ↔ k' ≠ k ∧ m.get? k' = some u := by
  rw [get?_erase]
  split <;> simp_all

/-- What a lookup finds after the value of one key was modified. -/
theorem get?_modify (m : OrdMap κ ν) (k k' : κ) (f : ν → ν) :
    (m.modify k f).get? k' = if k' = k then (m.get? k').map f else m.get? k' := by
  obtain ⟨es, hs⟩ := m
  unfold get? modify
  dsimp only
  clear hs
  induction es with
  | nil => simp
  | cons d es ih =>
    by_cases hk : d.1 = k'
    · subst hk
      by_cases hd : d.1 = k <;> simp [hd]
    · by_cases hd : d.1 = k
      · simpa [hd, hk, show ¬ k = k' from hd ▸ hk] using ih
      · simpa [hd, hk] using ih

/-- A change that is made at the keys of a list. -/
theorem get?_foldl_modify {f : ν → ν} (hf : ∀ v, f (f v) = f v) (l : List κ) (m : OrdMap κ ν)
    (k : κ) :
    (l.foldl (fun m j => m.modify j f) m).get? k = if k ∈ l then (m.get? k).map f
      else m.get? k := by
  induction l generalizing m with
  | nil => simp
  | cons j rest ih =>
    rw [List.foldl_cons, ih, get?_modify]
    by_cases hj : k = j
    · subst hj
      cases m.get? k <;> simp [hf]
    · simp [hj]

/-- The keys of a list are erased. -/
theorem get?_foldl_erase (l : List κ) (m : OrdMap κ ν) (k : κ) :
    (l.foldl erase m).get? k = if k ∈ l then none else m.get? k := by
  induction l generalizing m with
  | nil => simp
  | cons j rest ih =>
    rw [List.foldl_cons, ih, get?_erase]
    by_cases hj : k = j <;> simp [hj]

/-- The values are what lookups find. -/
theorem mem_values {m : OrdMap κ ν} {v : ν} : v ∈ m.values ↔ ∃ k, m.get? k = some v := by
  constructor
  · intro h
    obtain ⟨e, he, rfl⟩ := List.mem_map.mp h
    exact ⟨e.1, mem_entries.mp he⟩
  · rintro ⟨k, hk⟩
    exact List.mem_map.mpr ⟨(k, v), mem_entries.mpr hk, rfl⟩

/-- The keys are where lookups find something. -/
theorem mem_keys {m : OrdMap κ ν} {k : κ} : k ∈ m.keys ↔ (m.get? k).isSome := by
  constructor
  · intro h
    obtain ⟨e, he, rfl⟩ := List.mem_map.mp h
    rw [mem_entries.mp he]
    rfl
  · intro h
    obtain ⟨v, hv⟩ := Option.isSome_iff_exists.mp h
    exact List.mem_map.mpr ⟨(k, v), mem_entries.mpr hv, rfl⟩

/-- No key occurs twice. -/
theorem keys_nodup (m : OrdMap κ ν) : m.keys.Nodup :=
  List.pairwise_map.mpr (m.sorted.imp fun h => ne_of_lt h)

/-- The first value of a key stays. -/
theorem get?_orInsert (m : OrdMap κ ν) (k k' : κ) (v : ν) :
    (m.orInsert k v).get? k' = if k' = k then some ((m.get? k).getD v) else m.get? k' := by
  unfold orInsert
  split
  · rename_i u hu
    split
    · rename_i heq; rw [heq, hu]; rfl
    · rfl
  · rename_i hnone
    rw [get?_insert, hnone]
    rfl

/-- The floor of `k` is an entry at most `k`, and every other such key is smaller. -/
theorem floor?_eq_some {m : OrdMap κ ν} {k k' : κ} {v : ν} :
    m.floor? k = some (k', v) ↔
      m.get? k' = some v ∧ k' ≤ k ∧ ∀ j u, m.get? j = some u → j ≤ k → j ≤ k' := by
  have hsort : (m.entries.filter fun e => e.1 ≤ k).Pairwise fun a b => a.1 < b.1 :=
    m.sorted.filter _
  unfold floor?
  constructor
  · intro h
    obtain ⟨l, hl⟩ := List.getLast?_eq_some_iff.mp h
    have hmem : (k', v) ∈ m.entries.filter fun e => e.1 ≤ k := by rw [hl]; simp
    obtain ⟨hm, hle⟩ := List.mem_filter.mp hmem
    refine ⟨mem_entries.mp hm, by simpa using hle, ?_⟩
    intro j u hj hjk
    have hju : (j, u) ∈ m.entries.filter fun e => e.1 ≤ k :=
      List.mem_filter.mpr ⟨mem_entries.mpr hj, by simpa using hjk⟩
    rw [hl] at hju hsort
    rcases List.mem_append.mp hju with hj' | hj'
    · exact le_of_lt ((List.pairwise_append.mp hsort).2.2 _ hj' (k', v) (by simp))
    · simp at hj'
      exact le_of_eq hj'.1
  -- the filtered entries are sorted, so their last one has the largest key that is at most `k`
  · rintro ⟨hk', hle, hmax⟩
    have hmem : (k', v) ∈ m.entries.filter fun e => e.1 ≤ k :=
      List.mem_filter.mpr ⟨mem_entries.mpr hk', by simpa using hle⟩
    rcases hlast : (m.entries.filter fun e => e.1 ≤ k).getLast? with _ | e
    · rw [List.getLast?_eq_none_iff.mp hlast] at hmem
      simp at hmem
    · obtain ⟨l, hl⟩ := List.getLast?_eq_some_iff.mp hlast
      have he : e ∈ m.entries.filter fun e => e.1 ≤ k := by rw [hl]; simp
      obtain ⟨hem, hek⟩ := List.mem_filter.mp he
      have hge : e.1 ≤ k' := hmax e.1 e.2 (mem_entries.mp hem) (by simpa using hek)
      rw [hl] at hmem hsort
      rcases List.mem_append.mp hmem with h | h
      · exact absurd ((List.pairwise_append.mp hsort).2.2 _ h e (by simp)) (not_lt.mpr hge)
      · rw [hlast, List.mem_singleton.mp h]

/-- The floor after an insertion is the new entry, or the floor before it. -/
theorem floor?_insert {m : OrdMap κ ν} {k a k' : κ} {v v' : ν}
    (h : (m.insert k v).floor? a = some (k', v')) :
    k' = k ∧ v' = v ∨ k' ≠ k ∧ m.floor? a = some (k', v') := by
  obtain ⟨hget, hle, hmax⟩ := floor?_eq_some.mp h
  by_cases heq : k' = k
  · subst heq
    rw [get?_insert_self] at hget
    exact .inl ⟨rfl, (Option.some.inj hget).symm⟩
  · rw [get?_insert_ne _ _ heq] at hget
    refine .inr ⟨heq, floor?_eq_some.mpr ⟨hget, hle, fun j u hj hja => ?_⟩⟩
    by_cases hjk : j = k
    · exact hmax j v (by rw [hjk, get?_insert_self]) hja
    · exact hmax j u (by rw [get?_insert_ne _ _ hjk]; exact hj) hja

/-- A change of an entry keeps the floor. -/
theorem floor?_modify {m : OrdMap κ ν} {a k' : κ} {v : ν} (k : κ) (f : ν → ν)
    (h : m.floor? a = some (k', v)) :
    (m.modify k f).floor? a = some (k', if k' = k then f v else v) := by
  obtain ⟨hget, hle, hmax⟩ := floor?_eq_some.mp h
  refine floor?_eq_some.mpr ⟨?_, hle, fun j u hj hja => ?_⟩
  · rw [get?_modify, hget]
    split <;> rfl
  · rw [get?_modify] at hj
    split at hj
    · obtain ⟨u', hu', -⟩ := Option.map_eq_some_iff.mp hj
      exact hmax j u' hu' hja
    · exact hmax j u hj hja

/-! ### Maps of values -/

section MapValues

variable {μ : Type} (g : ν → μ)

/-- A lookup in the mapped entries. -/
theorem get?_mapValues (m : OrdMap κ ν) (k : κ) : (m.mapValues g).get? k = (m.get? k).map g := by
  obtain ⟨es, hs⟩ := m
  unfold get? mapValues
  dsimp only
  clear hs
  induction es with
  | nil => rfl
  | cons d es ih =>
    by_cases hk : d.1 = k
    · simp [hk]
    · simpa [hk] using ih

/-- A map whose values name their keys is rebuilt by inserting its values, one after the other. -/
theorem foldl_insert_values {key : ν → κ} {m : OrdMap κ ν}
    (hkey : ∀ k v, m.get? k = some v → key v = k) :
    m.values.foldl (fun acc v => acc.insert (key v) (g v)) empty = m.mapValues g := by
  have hfold : ∀ (l : List ν) (acc : OrdMap κ μ) (k : κ), (l.map key).Nodup →
      (l.foldl (fun acc v => acc.insert (key v) (g v)) acc).get? k
        = (l.find? fun v => key v = k).elim (acc.get? k) fun v => some (g v) := by
    intro l
    induction l with
    | nil => exact fun _ _ _ => rfl
    | cons v rest ih =>
      intro acc k hnd
      obtain ⟨hnot, hnd'⟩ := List.nodup_cons.mp hnd
      rw [List.foldl_cons, ih _ _ hnd']
      by_cases heq : key v = k
      · have hnone : rest.find? (fun u => key u = k) = none := by
          refine List.find?_eq_none.mpr fun u hu => ?_
          simp only [decide_eq_true_eq]
          exact fun huk => hnot (List.mem_map.mpr ⟨u, hu, huk.trans heq.symm⟩)
        rw [hnone, List.find?_cons_of_pos (by simpa using heq)]
        subst heq
        exact get?_insert_self ..
      · rw [List.find?_cons_of_neg (by simpa using heq), get?_insert_ne _ _ (Ne.symm heq)]
  -- the keys that the values name are those of the map, each once
  have hkeys : m.values.map key = m.keys := by
    rw [values, keys, List.map_map]
    exact List.map_congr_left fun e he => hkey e.1 e.2 (mem_entries.mp he)
  refine ext_get? fun k => ?_
  rw [hfold _ _ _ (hkeys ▸ m.keys_nodup), get?_mapValues, get?_empty]
  have hfound : m.values.find? (fun v => key v = k) = m.get? k := by
    cases hk : m.get? k with
    | none =>
      refine List.find?_eq_none.mpr fun v hv => ?_
      obtain ⟨j, hj⟩ := mem_values.mp hv
      simp only [decide_eq_true_eq]
      intro hvk
      rw [← hkey j v hj, hvk, hk] at hj
      cases hj
    | some v =>
      cases hf : m.values.find? (fun v => key v = k) with
      | none =>
        have hno := List.find?_eq_none.mp hf v (mem_values.mpr ⟨k, hk⟩)
        simp only [decide_eq_true_eq] at hno
        exact absurd (hkey k v hk) hno
      | some u =>
        obtain ⟨j, hj⟩ := mem_values.mp (List.mem_of_find?_eq_some hf)
        have huk : key u = k := by simpa using List.find?_some hf
        rw [← hkey j u hj, huk, hk] at hj
        exact hj.symm
  rw [hfound]
  cases m.get? k <;> rfl

/-- The floor does not depend on the values. -/
theorem floor?_mapValues (m : OrdMap κ ν) (k : κ) :
    (m.mapValues g).floor? k = (m.floor? k).map fun e => (e.1, g e.2) := by
  unfold floor? mapValues
  rw [List.filter_map, List.getLast?_map]
  rfl

/-- Mapping the values commutes with an insertion. -/
theorem mapValues_insert (m : OrdMap κ ν) (k : κ) (v : ν) :
    (m.insert k v).mapValues g = (m.mapValues g).insert k (g v) :=
  ext_get? fun j => by
    rw [get?_mapValues, get?_insert, get?_insert, get?_mapValues]
    split <;> rfl

/-- Mapping the values commutes with a removal. -/
theorem mapValues_erase (m : OrdMap κ ν) (k : κ) :
    (m.erase k).mapValues g = (m.mapValues g).erase k :=
  ext_get? fun j => by
    rw [get?_mapValues, get?_erase, get?_erase, get?_mapValues]
    split <;> rfl

/-- A change of a value becomes the change `f'` that `g` makes of it. -/
theorem mapValues_modify (m : OrdMap κ ν) (k : κ) {f : ν → ν} {f' : μ → μ}
    (h : ∀ v, g (f v) = f' (g v)) : (m.modify k f).mapValues g = (m.mapValues g).modify k f' :=
  ext_get? fun j => by
    rw [get?_mapValues, get?_modify, get?_modify, get?_mapValues]
    split
    · cases m.get? j <;> simp [h]
    · rfl

/-- A change that `g` does not see leaves the map of values as it was. -/
theorem mapValues_modify_eq (m : OrdMap κ ν) (k : κ) {f : ν → ν} (h : ∀ v, g (f v) = g v) :
    (m.modify k f).mapValues g = m.mapValues g :=
  ext_get? fun j => by
    rw [get?_mapValues, get?_modify, get?_mapValues]
    split
    · cases m.get? j <;> simp [h]
    · rfl

/-- The total of mapped values is a total of the values. -/
theorem total_mapValues (f : μ → Nat) (m : OrdMap κ ν) :
    total f (m.mapValues g) = total (fun v => f (g v)) m := by
  simp [total, values, mapValues, Function.comp_def]

end MapValues

/-! ### Sums over the values -/

/-- An insertion adds the new value to the sum of the entries at other keys. -/
theorem sum_insertEntries (f : ν → Nat) (k : κ) (v : ν) (es : List (κ × ν))
    (hs : es.Pairwise fun a b => a.1 < b.1) :
    ((insertEntries k v es).map fun e => f e.2).sum
      = f v + ((es.filter fun e => e.1 ≠ k).map fun e => f e.2).sum := by
  induction es with
  | nil => simp [insertEntries]
  -- the head decides: the new key comes before it, replaces it, or goes further back
  | cons d es ih =>
    obtain ⟨hd, hes⟩ := List.pairwise_cons.mp hs
    unfold insertEntries
    split
    · rename_i hlt
      have hall : (d :: es).filter (fun e => e.1 ≠ k) = d :: es := by
        refine List.filter_eq_self.mpr fun e he => ?_
        rcases List.mem_cons.mp he with rfl | he
        · simpa using ne_of_gt hlt
        · simpa using ne_of_gt (hlt.trans (hd e he))
      rw [hall]
      simp
    · split
      · rename_i heq
        have hall : es.filter (fun e => e.1 ≠ k) = es :=
          List.filter_eq_self.mpr fun e he => by simpa [heq] using ne_of_gt (hd e he)
        rw [List.filter_cons_of_neg (by simp [heq]), hall]
        simp
      · rename_i hne
        rw [List.filter_cons_of_pos (by simpa using fun h => hne h.symm)]
        simp only [List.map_cons, List.sum_cons, ih hes]
        omega

/-- An insertion adds its value to what the other keys add up to. -/
theorem total_insert (f : ν → Nat) (m : OrdMap κ ν) (k : κ) (v : ν) :
    total f (m.insert k v) = f v + total f (m.erase k) := by
  simpa [total, values, insert, erase, Function.comp_def] using
    sum_insertEntries f k v m.entries m.sorted

/-- An entry that is removed and put back leaves the map as it was. -/
theorem erase_insert (m : OrdMap κ ν) {k : κ} (v : ν) (h : m.get? k = some v) :
    (m.erase k).insert k v = m := by
  refine ext_get? fun j => ?_
  rw [get?_insert, get?_erase]
  split
  · rename_i hj; rw [hj, h]
  · rfl

/-- Erasing an entry takes its own term out of the sum. -/
theorem total_erase (f : ν → Nat) (m : OrdMap κ ν) {k : κ} {v : ν} (h : m.get? k = some v) :
    total f m = f v + total f (m.erase k) := by
  have hm := total_insert f (m.erase k) k v
  rw [erase_insert m v h] at hm
  have hidem : (m.erase k).erase k = m.erase k := ext_get? fun j => by
    rw [get?_erase]
    split
    · rename_i hj; rw [hj, get?_erase_self]
    · rfl
  rw [hm, hidem]

/-- Two new entries that are removed again leave the map as it was. -/
theorem erase_erase_insert_insert (m : OrdMap κ ν) {k k' : κ} (v v' : ν) (h : m.get? k = none)
    (h' : m.get? k' = none) : (((m.insert k v).insert k' v').erase k).erase k' = m := by
  refine ext_get? fun j => ?_
  rw [get?_erase, get?_erase, get?_insert, get?_insert]
  by_cases h1 : j = k'
  · rw [if_pos h1, h1, h']
  · by_cases h2 : j = k
    · rw [if_neg h1, if_pos h2, h2, h]
    · rw [if_neg h1, if_neg h2, if_neg h1, if_neg h2]

/-- Nothing is removed at a key that has no entry. -/
theorem erase_of_get?_none (m : OrdMap κ ν) {k : κ} (h : m.get? k = none) : m.erase k = m :=
  ext_get? fun j => by
    rw [get?_erase]
    split
    · rename_i hj; rw [hj, h]
    · rfl

/-- A modification at a key that has an entry is an insertion of the new value. -/
theorem modify_eq_insert (m : OrdMap κ ν) {k : κ} {v : ν} (f : ν → ν) (h : m.get? k = some v) :
    m.modify k f = m.insert k (f v) :=
  ext_get? fun j => by
    rw [get?_modify, get?_insert]
    split
    · rename_i hj; rw [hj, h]; rfl
    · rfl

/-- Nothing is modified at a key that has no entry. -/
theorem modify_of_get?_none (m : OrdMap κ ν) {k : κ} (f : ν → ν) (h : m.get? k = none) :
    m.modify k f = m :=
  ext_get? fun j => by
    rw [get?_modify]
    split
    · rename_i hj; rw [hj, h]; rfl
    · rfl

/-- No value exceeds the total. -/
theorem le_total (f : ν → Nat) (m : OrdMap κ ν) {k : κ} {v : ν} (h : m.get? k = some v) :
    f v ≤ total f m := by
  rw [total_erase f m h]
  exact Nat.le_add_right _ _

/-- An erased entry is not in the sum. -/
theorem total_erase_le (f : ν → Nat) (m : OrdMap κ ν) (k : κ) :
    total f (m.erase k) ≤ total f m := by
  cases h : m.get? k with
  | none => rw [erase_of_get?_none m h]
  | some v => rw [total_erase f m h]; exact Nat.le_add_left _ _

/-- A change of a value that keeps its term keeps the sum. -/
theorem total_modify (f : ν → Nat) (m : OrdMap κ ν) (k : κ) {g : ν → ν} (h : ∀ v, f (g v) = f v) :
    total f (m.modify k g) = total f m := by
  cases hk : m.get? k with
  | none => rw [modify_of_get?_none m g hk]
  | some v => rw [modify_eq_insert m g hk, total_insert, h, ← total_erase f m hk]

/-- A sum is zero exactly when every term is. -/
theorem total_eq_zero {f : ν → Nat} {m : OrdMap κ ν} :
    total f m = 0 ↔ ∀ k v, m.get? k = some v → f v = 0 := by
  constructor
  · intro h k v hk
    have := le_total f m hk
    omega
  · intro h
    refine List.sum_eq_zero fun n hn => ?_
    obtain ⟨v, hv, rfl⟩ := List.mem_map.mp hn
    obtain ⟨k, hk⟩ := mem_values.mp hv
    exact h k v hk

end OrdMap

end Ape.Lib
