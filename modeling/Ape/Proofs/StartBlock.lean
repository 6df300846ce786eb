import Ape.Proofs.Bytes

/-!
# `Ape.Proofs.StartBlock`: how a program reads its start block

A program finds its arguments at its first stack pointer: a count, the pointers to the arguments up
to a null pointer, those to the environment up to a null pointer, and pairs of words up to a pair
with a null key. Each pointer leads to bytes that end with a null byte. `Memory.startBlock` is that
reader, over any memory, with a bound on the length of each list and string.

`Memory.startBlock_of_holds` says what it finds in a memory that holds the words and the strings.
-/

set_option autoImplicit false

namespace Ape

/-- The bytes of a string. -/
def utf8 (s : String) : List UInt8 := s.toUTF8.toList

/-- A memory, as a program reads it. -/
abbrev Memory := Nat → Option UInt8

/-- What a program finds at its start, with the pointers it follows. -/
structure StartBlock where
  argc : Nat
  argvAt : List Nat
  argv : List (List UInt8)
  envpAt : List Nat
  envp : List (List UInt8)
  auxv : List (Nat × Nat)
  deriving DecidableEq

namespace Memory

/-- The word at `a`. -/
def word (m : Memory) (a : Nat) : Option Nat := ((List.range 8).mapM fun i => m (a + i)).map leNat

/-- The bytes from `a` up to a null byte. -/
def cString (m : Memory) : Nat → Nat → Option (List UInt8)
  | 0, _ => none
  | fuel + 1, a => do
    let b ← m a
    if b = 0 then some []
    else do
      let rest ← m.cString fuel (a + 1)
      some (b :: rest)

/-- The pointers from `a` up to a null pointer. -/
def pointers (m : Memory) : Nat → Nat → Option (List Nat)
  | 0, _ => none
  | fuel + 1, a => do
    let p ← m.word a
    if p = 0 then some []
    else do
      let rest ← m.pointers fuel (a + 8)
      some (p :: rest)

/-- The pairs of words from `a` up to one with a null key. -/
def pairs (m : Memory) : Nat → Nat → Option (List (Nat × Nat))
  | 0, _ => none
  | fuel + 1, a => do
    let k ← m.word a
    if k = 0 then some []
    else do
      let v ← m.word (a + 8)
      let rest ← m.pairs fuel (a + 16)
      some ((k, v) :: rest)

/-- The start block at `sp`. -/
def startBlock (m : Memory) (fuel sp : Nat) : Option StartBlock := do
  let argc ← m.word sp
  let argvAt ← m.pointers fuel (sp + 8)
  let argv ← argvAt.mapM (m.cString fuel)
  let envpAt ← m.pointers fuel (sp + 8 * (argvAt.length + 2))
  let envp ← envpAt.mapM (m.cString fuel)
  let auxv ← m.pairs fuel (sp + 8 * (argvAt.length + envpAt.length + 3))
  some ⟨argc, argvAt, argv, envpAt, envp, auxv⟩

/-! ### What a memory holds -/

/-- The bytes from `a` on. -/
def HoldsBytes (m : Memory) : Nat → List UInt8 → Prop
  | _, [] => True
  | a, b :: bs => m a = some b ∧ m.HoldsBytes (a + 1) bs

/-- The words from `a` on. -/
def HoldsWords (m : Memory) : Nat → List Nat → Prop
  | _, [] => True
  | a, v :: vs => m.word a = some v ∧ m.HoldsWords (a + 8) vs

variable {m : Memory} {a fuel : Nat}

/-- Bytes in memory, one by one. -/
theorem holdsBytes_iff (m : Memory) (a : Nat) (bs : List UInt8) :
    m.HoldsBytes a bs ↔ ∀ i (h : i < bs.length), m (a + i) = some bs[i] := by
  induction bs generalizing a with
  | nil => exact iff_of_true trivial fun i h => absurd h (Nat.not_lt_zero i)
  | cons b bs ih =>
    rw [HoldsBytes, ih]
    constructor
    · rintro ⟨hb, hbs⟩ (_ | i) h
      · exact hb
      · have := hbs i (Nat.lt_of_succ_lt_succ h)
        rwa [Nat.add_right_comm] at this
    · intro h
      refine ⟨h 0 (Nat.succ_pos _), ?_⟩
      intro i hi
      rw [Nat.add_right_comm]
      exact h (i + 1) (Nat.succ_lt_succ hi)

/-- Bytes in memory are read back. -/
theorem mapM_of_holdsBytes {bs : List UInt8} (h : m.HoldsBytes a bs) :
    ((List.range bs.length).mapM fun i => m (a + i)) = some bs := by
  induction bs generalizing a with
  | nil => rfl
  | cons b bs ih =>
    have hnext : (fun i => m (a + (i + 1))) = fun i => m (a + 1 + i) :=
      funext fun i => by rw [Nat.add_right_comm, Nat.add_assoc]
    rw [List.length_cons, List.range_succ_eq_map, List.mapM_cons, List.mapM_map]
    show (m a).bind (fun r => ((List.range bs.length).mapM fun i => m (a + (i + 1))).bind
      fun rs => some (r :: rs)) = _
    rw [h.1, hnext, ih h.2]
    rfl

/-- A word is read from its bytes. -/
theorem word_of_holdsBytes {v : Nat} (h : m.HoldsBytes a (leBytes 8 v)) (hv : v < usizeMod) :
    m.word a = some v := by
  have hbytes := mapM_of_holdsBytes h
  rw [length_leBytes] at hbytes
  rw [word, hbytes, Option.map_some, leNat_leBytes_of_lt hv]

/-- Words in memory are those of the front and those behind it. -/
theorem HoldsWords.append {vs ws : List Nat} (h : m.HoldsWords a (vs ++ ws)) :
    m.HoldsWords a vs ∧ m.HoldsWords (a + 8 * vs.length) ws := by
  induction vs generalizing a with
  | nil => exact ⟨trivial, h⟩
  | cons v vs ih =>
    obtain ⟨hvs, hws⟩ := ih h.2
    refine ⟨⟨h.1, hvs⟩, ?_⟩
    rw [List.length_cons, Nat.mul_succ, ← Nat.add_assoc, Nat.add_right_comm]
    exact hws

/-- A string is read up to its first NUL byte. -/
theorem cString_of_holdsBytes {s : List UInt8} (h : m.HoldsBytes a (s ++ [0]))
    (hfuel : s.length < fuel) : m.cString fuel a = some (s.takeWhile (· ≠ 0)) := by
  induction fuel generalizing a s with
  | zero => exact absurd hfuel (Nat.not_lt_zero _)
  | succ fuel ih =>
    rw [cString]
    cases s with
    | nil =>
      rw [show m a = some 0 from h.1]
      rfl
    | cons b s =>
      rw [show m a = some b from h.1, Option.bind_eq_bind, Option.bind_some]
      by_cases hb : b = 0
      · rw [if_pos hb, List.takeWhile_cons_of_neg (by simp [hb])]
      · rw [if_neg hb, ih h.2 (Nat.lt_of_succ_lt_succ hfuel),
          List.takeWhile_cons_of_pos (by simp [hb])]
        rfl

/-- Pointers are read up to the null one. -/
theorem pointers_of_holdsWords {ps rest : List Nat} (h : m.HoldsWords a (ps ++ 0 :: rest))
    (hne : 0 ∉ ps) (hfuel : ps.length < fuel) : m.pointers fuel a = some ps := by
  induction fuel generalizing a ps with
  | zero => exact absurd hfuel (Nat.not_lt_zero _)
  | succ fuel ih =>
    rw [pointers]
    cases ps with
    | nil =>
      rw [show m.word a = some 0 from h.1]
      rfl
    | cons p ps =>
      have hp : p ≠ 0 := fun h0 => hne (h0 ▸ List.mem_cons_self)
      rw [show m.word a = some p from h.1, Option.bind_eq_bind, Option.bind_some, if_neg hp,
        ih h.2 (fun h0 => hne (List.mem_cons_of_mem _ h0)) (Nat.lt_of_succ_lt_succ hfuel)]
      rfl

/-- Pairs are read up to the one with a null key. -/
theorem pairs_of_holdsWords {kvs : List (Nat × Nat)} {rest : List Nat}
    (h : m.HoldsWords a (kvs.flatMap (fun kv => [kv.1, kv.2]) ++ 0 :: rest))
    (hne : ∀ kv ∈ kvs, kv.1 ≠ 0) (hfuel : kvs.length < fuel) : m.pairs fuel a = some kvs := by
  induction fuel generalizing a kvs with
  | zero => exact absurd hfuel (Nat.not_lt_zero _)
  | succ fuel ih =>
    rw [pairs]
    cases kvs with
    | nil =>
      rw [show m.word a = some 0 from h.1]
      rfl
    | cons kv kvs =>
      rw [show m.word a = some kv.1 from h.1, Option.bind_eq_bind, Option.bind_some,
        if_neg (hne kv List.mem_cons_self), show m.word (a + 8) = some kv.2 from h.2.1,
        Option.bind_some, ih h.2.2 (fun q hq => hne q (List.mem_cons_of_mem _ hq))
          (Nat.lt_of_succ_lt_succ hfuel)]
      rfl

/-- Pointers that lead to strings. -/
theorem cStrings_of_holdsBytes {ps : List Nat} {ss : List (List UInt8)}
    (h : List.Forall₂ (fun p s => m.HoldsBytes p (s ++ [0]) ∧ s.length < fuel) ps ss) :
    ps.mapM (m.cString fuel) = some (ss.map fun s => s.takeWhile (· ≠ 0)) := by
  induction h with
  | nil => rfl
  | cons hp _ ih =>
    rw [List.mapM_cons, cString_of_holdsBytes hp.1 hp.2, ih]
    rfl

/-- The start block of a memory that holds its words, and the strings that its pointers lead to. -/
theorem startBlock_of_holds {sp argc : Nat} {argvAt envpAt rest : List Nat}
    {argv envp : List (List UInt8)} {auxv : List (Nat × Nat)}
    (hwords : m.HoldsWords sp ([argc] ++ argvAt ++ [0] ++ envpAt ++ [0]
      ++ auxv.flatMap (fun kv => [kv.1, kv.2]) ++ 0 :: rest))
    (hargvAt : 0 ∉ argvAt) (henvpAt : 0 ∉ envpAt) (hauxv : ∀ kv ∈ auxv, kv.1 ≠ 0)
    (hargv : List.Forall₂ (fun p s => m.HoldsBytes p (s ++ [0]) ∧ s.length < fuel) argvAt argv)
    (henvp : List.Forall₂ (fun p s => m.HoldsBytes p (s ++ [0]) ∧ s.length < fuel) envpAt envp)
    (hfuel : argvAt.length + envpAt.length + auxv.length < fuel) :
    m.startBlock fuel sp = some ⟨argc, argvAt, argv.map fun s => s.takeWhile (· ≠ 0), envpAt,
      envp.map fun s => s.takeWhile (· ≠ 0), auxv⟩ := by
  -- the words from the count on, from the two lists of pointers on, and from the pairs on
  have hargvPart : m.HoldsWords (sp + 8) (argvAt ++ 0 :: (envpAt ++ [0]
      ++ auxv.flatMap (fun kv => [kv.1, kv.2]) ++ 0 :: rest)) := by
    simpa using hwords.2
  have henvpPart : m.HoldsWords (sp + 8 * (argvAt.length + 2)) (envpAt ++ 0 ::
      (auxv.flatMap (fun kv => [kv.1, kv.2]) ++ 0 :: rest)) := by
    have hend := hargvPart.append.2.2
    rw [show sp + 8 * (argvAt.length + 2) = sp + 8 + 8 * argvAt.length + 8 by omega]
    simpa using hend
  have hauxvPart : m.HoldsWords (sp + 8 * (argvAt.length + envpAt.length + 3))
      (auxv.flatMap (fun kv => [kv.1, kv.2]) ++ 0 :: rest) := by
    rw [show sp + 8 * (argvAt.length + envpAt.length + 3) =
      sp + 8 * (argvAt.length + 2) + 8 * envpAt.length + 8 by omega]
    exact henvpPart.append.2.2
  simp only [startBlock, show m.word sp = some argc from hwords.1,
    pointers_of_holdsWords hargvPart hargvAt (by omega : argvAt.length < fuel),
    cStrings_of_holdsBytes hargv,
    pointers_of_holdsWords henvpPart henvpAt (by omega : envpAt.length < fuel),
    cStrings_of_holdsBytes henvp,
    pairs_of_holdsWords hauxvPart hauxv (by omega : auxv.length < fuel),
    Option.bind_eq_bind, Option.bind_some]

end Memory

end Ape
