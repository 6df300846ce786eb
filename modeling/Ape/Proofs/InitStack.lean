import Ape.Lib.Rows
import Ape.Proofs.StartBlock
import Ape.Proofs.Hardware
import Ape.Proofs.Segments

/-!
# `Ape.Proofs.InitStack`: the start block of a process

`setup_initial_stack` places the strings of `argv` and `envp` downwards from the end of the stack
page, each array from its last string on, and the words below them at a multiple of 16. The pieces
lie in rows, so no store covers another one, and the page holds every string and every word.

`initial_stack_round_trip` reads the page back as a program does at its start.
-/

set_option autoImplicit false

namespace Ape

open Ape.Lib Cmd

/-! ### The rows of the stack page -/

/-- The bytes of strings with their terminators. -/
def stringBytes (ss : List (List UInt8)) : Nat := (ss.map fun s => s.length + 1).sum

/-- The bytes of a list of strings, with the terminator of the first one. -/
@[simp] theorem stringBytes_cons (s : List UInt8) (ss : List (List UInt8)) :
    stringBytes (s :: ss) = s.length + 1 + stringBytes ss := rfl

/-- The order of the strings does not matter to their bytes. -/
theorem stringBytes_reverse (ss : List (List UInt8)) : stringBytes ss.reverse = stringBytes ss := by
  rw [stringBytes, List.map_reverse, List.sum_reverse]
  rfl

/-- The loop over an array fails exactly when its strings do not fit. -/
theorem placeStrings_eq_none_iff (l : List (List UInt8)) (sp : Nat)
    (placed : List (Nat × List UInt8)) :
    placeStrings l sp placed = none ↔ sp < stringBytes l := by
  induction l generalizing sp placed with
  | nil => exact iff_of_false (by simp [placeStrings]) (Nat.not_lt_zero _)
  | cons s rest ih =>
    rw [placeStrings, stringBytes_cons]
    by_cases h : sp < s.length + 1
    · rw [if_pos h]
      exact iff_of_true rfl (by omega)
    · rw [if_neg h, ih]
      omega

/-- The loop places the strings in a row that ends at `sp`, in the order of the array. -/
theorem placeStrings_eq_some {l : List (List UInt8)} {sp sp' : Nat}
    {placed placed' : List (Nat × List UInt8)}
    (h : placeStrings l sp placed = some (sp', placed')) :
    sp = sp' + stringBytes l ∧ ∃ row, placed' = row ++ placed ∧ InRow row sp' sp ∧
      row.map (·.2) = l.reverse.map (· ++ [0]) := by
  induction l generalizing sp placed with
  | nil =>
    cases h
    exact ⟨rfl, [], rfl, rfl, rfl⟩
  | cons s rest ih =>
    rw [placeStrings] at h
    split at h
    · cases h
    rename_i hfits
    obtain ⟨hsp, row, rfl, hrow, hstrings⟩ := ih h
    refine ⟨by rw [stringBytes_cons]; omega,
      row ++ [(sp - (s.length + 1), s ++ [0])], by simp, ?_, ?_⟩
    · have hend : InRow [(sp - (s.length + 1), s ++ [0])] (sp - (s.length + 1)) sp := by
        have hlast := InRow.single (sp - (s.length + 1)) (s ++ [0])
        rwa [List.length_append, List.length_singleton, Nat.sub_add_cancel (by omega)] at hlast
      exact hrow.append hend
    · rw [List.map_append, hstrings]
      simp

/-- The stores of the words from `sp` on. -/
def wordStores (sp : Nat) (words : List Nat) (k : Nat) : List (Nat × List UInt8) :=
  (words.zipIdx k).map fun wi => (sp + wi.2 * 8, leBytes 8 wi.1)

/-- The words are stored one after the other. -/
theorem wordStores_inRow (sp : Nat) (words : List Nat) (k : Nat) :
    InRow (wordStores sp words k) (sp + k * 8) (sp + (k + words.length) * 8) := by
  induction words generalizing k with
  | nil => exact rfl
  | cons w ws ih =>
    have hrest := ih (k + 1)
    refine ⟨rfl, ?_⟩
    rw [length_leBytes, List.length_cons]
    rwa [show sp + (k + 1) * 8 = sp + k * 8 + 8 by omega,
      show sp + (k + 1 + ws.length) * 8 = sp + (k + (ws.length + 1)) * 8 by omega] at hrest

/-- The number of words of the start block. -/
def startWords (argv envp : List (List UInt8)) (auxv : List (Nat × Nat)) : Nat :=
  argv.length + envp.length + 2 * auxv.length + 5

/-- The bytes that the start block takes. -/
def startBytes (argv envp : List (List UInt8)) (auxv : List (Nat × Nat)) : Nat :=
  stringBytes argv + stringBytes envp + startWords argv envp auxv * 8

/-- How `setup_initial_stack` lays out the page: the strings of `argv` above those of `envp`, and
the words below them. -/
structure StackRows (base : Nat) (argv envp : List (List UInt8))
    (auxv : List (Nat × Nat)) (sp : Nat)
    (argvAt envpAt : List (Nat × List UInt8)) : Prop where
  aligned : sp % 16 = 0
  rows : ∃ a b, InRow argvAt a PGSIZE ∧ InRow envpAt b a ∧ sp + startWords argv envp auxv * 8 ≤ b
  argv : argvAt.map (·.2) = argv.map (· ++ [0])
  envp : envpAt.map (·.2) = envp.map (· ++ [0])

/-- How many words a start block has. -/
theorem length_stackWords (base : Nat) (argvAt envpAt : List (Nat × List UInt8))
    (auxv : List (Nat × Nat)) :
    (stackWords base argvAt envpAt auxv).length = argvAt.length + envpAt.length
      + 2 * auxv.length + 5 := by
  have hpairs : (auxv.flatMap fun kv => [kv.1, kv.2]).length = 2 * auxv.length := by
    induction auxv with
    | nil => rfl
    | cons kv rest ih => rw [List.flatMap_cons, List.length_append, ih]; simp; omega
  unfold stackWords
  simp only [List.length_append, List.length_map, List.length_cons, List.length_nil, hpairs]
  omega

/-- A row has one address for each string. -/
theorem length_of_strings {row : List (Nat × List UInt8)} {ss : List (List UInt8)}
    (h : row.map (·.2) = ss.map (· ++ [0])) : row.length = ss.length := by
  simpa using congrArg List.length h

/-- The start block is refused exactly when it does not fit in the page, and one that fits is laid
out in rows. -/
theorem initialStack_cases (base : Nat) (argv envp : List (List UInt8)) (auxv : List (Nat × Nat)) :
    (PGSIZE < startBytes argv envp auxv ∧ initialStack base argv envp auxv = none) ∨
    (startBytes argv envp auxv ≤ PGSIZE ∧ ∃ sp argvAt envpAt,
      StackRows base argv envp auxv sp argvAt envpAt ∧
      initialStack base argv envp auxv = some (sp,
        argvAt ++ envpAt ++ wordStores sp (stackWords base argvAt envpAt auxv) 0)) := by
  unfold initialStack startBytes
  -- the strings of `argv` go first, those of `envp` below them, and then the words
  rcases hargv : placeStrings argv.reverse PGSIZE [] with _ | ⟨a, argvAt⟩
  · have hlarge := (placeStrings_eq_none_iff _ _ _).mp hargv
    rw [stringBytes_reverse] at hlarge
    exact .inl ⟨by omega, rfl⟩
  obtain ⟨ha, argvAt, rfl, hargvRow, hargvStrings⟩ := placeStrings_eq_some hargv
  rw [stringBytes_reverse] at ha
  rcases henvp : placeStrings envp.reverse a [] with _ | ⟨b, envpAt⟩
  · have hlarge := (placeStrings_eq_none_iff _ _ _).mp henvp
    rw [stringBytes_reverse] at hlarge
    refine .inl ⟨by omega, ?_⟩
    simp [henvp]
  obtain ⟨hb, envpAt, rfl, henvpRow, henvpStrings⟩ := placeStrings_eq_some henvp
  rw [stringBytes_reverse] at hb
  rw [List.reverse_reverse] at hargvStrings henvpStrings
  have hwords : (stackWords base argvAt envpAt auxv).length = startWords argv envp auxv := by
    rw [length_stackWords, length_of_strings hargvStrings,
      length_of_strings henvpStrings, startWords]
  simp only [Option.bind_eq_bind, Option.bind_some, List.append_nil, henvp, hwords]
  -- the words fit below the strings, or the call fails
  by_cases hfits : b < startWords argv envp auxv * 8
  · exact .inl ⟨by omega, if_pos hfits⟩
  · refine .inr ⟨by omega, (b - startWords argv envp auxv * 8) / 16 * 16, argvAt, envpAt,
      ⟨Nat.mul_mod_left _ _, ⟨a, b, hargvRow, henvpRow, by omega⟩, hargvStrings, henvpStrings⟩, ?_⟩
    rw [if_neg hfits]
    rfl

/-! ### The bytes of the page -/

/-- Stores that do not reach a byte leave it alone. -/
theorem foldl_storeBytes_of_not {l : List (Nat × List UInt8)} {o : Nat} (b : UInt8)
    (h : ∀ p ∈ l, ¬ (p.1 ≤ o ∧ o < p.1 + p.2.length)) :
    l.foldl (fun b st => storeBytes st.1 st.2 o b) b = b := by
  induction l generalizing b with
  | nil => rfl
  | cons p rest ih =>
    rw [List.foldl_cons, storeBytes, if_neg (h p List.mem_cons_self)]
    exact ih b fun q hq => h q (List.mem_cons_of_mem _ hq)

/-- With stores beside each other the page holds each of them. -/
theorem storedByte_of_mem {stores : List (Nat × List UInt8)} (h : stores.Pairwise Beside)
    {p : Nat × List UInt8} (hp : p ∈ stores) {i : Nat} (hi : i < p.2.length) :
    storedByte stores (p.1 + i) = p.2[i] := by
  unfold storedByte
  generalize (0 : UInt8) = b
  induction stores generalizing b with
  | nil => cases hp
  | cons q rest ih =>
    obtain ⟨hbeside, hrest⟩ := List.pairwise_cons.mp h
    rw [List.foldl_cons]
    rcases List.mem_cons.mp hp with rfl | hmem
    · rw [foldl_storeBytes_of_not _ fun q hq hin => ?_]
      · rw [storeBytes, if_pos ⟨Nat.le_add_right _ _, Nat.add_lt_add_left hi _⟩,
          Nat.add_sub_cancel_left, List.getD_eq_getElem?_getD, List.getElem?_eq_getElem hi]
        rfl
      · rcases hbeside q hq with hle | hle <;> omega
    · exact ih hrest hmem _

namespace StackRows

variable {base sp : Nat} {argv envp : List (List UInt8)} {auxv : List (Nat × Nat)}
  {argvAt envpAt : List (Nat × List UInt8)}

/-- The words of the start block are those that were reckoned with. -/
theorem length_words (h : StackRows base argv envp auxv sp argvAt envpAt) :
    (stackWords base argvAt envpAt auxv).length = startWords argv envp auxv := by
  rw [length_stackWords, length_of_strings h.argv, length_of_strings h.envp, startWords]

/-- The strings lie beside each other, between the words and the end of the page. -/
theorem strings (h : StackRows base argv envp auxv sp argvAt envpAt) :
    (argvAt ++ envpAt).Pairwise Beside ∧ ∀ p ∈ argvAt ++ envpAt,
      sp + startWords argv envp auxv * 8 ≤ p.1 ∧ p.1 + p.2.length ≤ PGSIZE := by
  obtain ⟨a, b, hargv, henvp, hwords⟩ := h.rows
  refine ⟨List.pairwise_append.mpr ⟨hargv.beside, henvp.beside, fun p hp q hq =>
    (henvp.beside_of_le hargv (Nat.le_refl a) hq hp).symm⟩, ?_⟩
  intro p hp
  have hle := hargv.le
  have hle' := henvp.le
  rcases List.mem_append.mp hp with hp | hp
  · have hin := hargv.within hp
    exact ⟨by omega, hin.2⟩
  · have hin := henvp.within hp
    exact ⟨by omega, by omega⟩

/-- No store covers another one, and all of them are in the page. -/
theorem stores (h : StackRows base argv envp auxv sp argvAt envpAt) :
    (argvAt ++ envpAt ++ wordStores sp (stackWords base argvAt envpAt auxv) 0).Pairwise Beside ∧
      ∀ p ∈ argvAt ++ envpAt ++ wordStores sp (stackWords base argvAt envpAt auxv) 0,
        p.1 + p.2.length ≤ PGSIZE := by
  have hrow := wordStores_inRow sp (stackWords base argvAt envpAt auxv) 0
  rw [h.length_words, Nat.zero_add, Nat.zero_mul, Nat.add_zero] at hrow
  obtain ⟨hbeside, hin⟩ := h.strings
  obtain ⟨a, b, hargv, henvp, hwords⟩ := h.rows
  refine ⟨List.pairwise_append.mpr ⟨hbeside, hrow.beside, ?_⟩, ?_⟩
  · intro p hp q hq
    exact .inr ((hrow.within hq).2.trans (hin p hp).1)
  · intro p hp
    rcases List.mem_append.mp hp with hp | hp
    · exact (hin p hp).2
    · have hword := hrow.within hp
      have hle := hargv.le
      have hle' := henvp.le
      omega

/-! ### Reading the page back -/

/-- The strings of a row, one by one. -/
theorem forall₂_strings {P : Nat × List UInt8 → Prop} {row : List (Nat × List UInt8)}
    {ss : List (List UInt8)} (h : row.map (·.2) = ss.map (· ++ [0])) (hrow : ∀ p ∈ row, P p) :
    List.Forall₂ (fun p s => P p ∧ p.2 = s ++ [0]) row ss := by
  induction row generalizing ss with
  | nil =>
    obtain rfl : ss = [] := List.map_eq_nil_iff.mp h.symm
    exact .nil
  | cons p rest ih =>
    cases ss with
    | nil => cases h
    | cons s ss =>
      obtain ⟨hp, hrest⟩ := List.cons.inj h
      exact .cons ⟨hrow p List.mem_cons_self, hp⟩
        (ih hrest fun q hq => hrow q (List.mem_cons_of_mem _ hq))

/-- A memory that holds the stores of words holds the words. -/
theorem holdsWords_of_stores {m : Memory} {words : List Nat} {k : Nat}
    (hbytes : ∀ p ∈ wordStores sp words k, m.HoldsBytes (base + p.1) p.2)
    (hsmall : ∀ v ∈ words, v < usizeMod) : m.HoldsWords (base + (sp + k * 8)) words := by
  induction words generalizing k with
  | nil => trivial
  | cons v vs ih =>
    refine ⟨Memory.word_of_holdsBytes (hbytes _ List.mem_cons_self)
      (hsmall v List.mem_cons_self), ?_⟩
    have hrest := @ih (k + 1) (fun p hp => hbytes p (List.mem_cons_of_mem _ hp))
      fun u hu => hsmall u (List.mem_cons_of_mem _ hu)
    rwa [show base + (sp + (k + 1) * 8) = base + (sp + k * 8) + 8 by omega] at hrest

/-- The memory has the page at `base`, with the start block in it. -/
def HoldsPage (m : Memory) (base sp : Nat) (auxv : List (Nat × Nat))
    (argvAt envpAt : List (Nat × List UInt8)) : Prop :=
  ∀ o < PGSIZE, m (base + o) = some
    (storedByte (argvAt ++ envpAt ++ wordStores sp (stackWords base argvAt envpAt auxv) 0) o)

/-- The words fit in the page. -/
theorem words_fit (h : StackRows base argv envp auxv sp argvAt envpAt) :
    sp + startWords argv envp auxv * 8 ≤ PGSIZE := by
  obtain ⟨a, b, hargv, henvp, hwords⟩ := h.rows
  have hle := hargv.le
  have hle' := henvp.le
  omega

/-- The words are machine words. -/
theorem words_small (h : StackRows base argv envp auxv sp argvAt envpAt)
    (htop : base + PGSIZE ≤ usizeMod) (hauxv : ∀ kv ∈ auxv, kv.1 < usizeMod ∧ kv.2 < usizeMod) :
    ∀ v ∈ stackWords base argvAt envpAt auxv, v < usizeMod := by
  -- a pointer is below the end of its string, which is in the page
  have hptr : ∀ p ∈ argvAt ++ envpAt, base + p.1 < usizeMod := by
    intro p hp
    have hend := (h.strings.2 p hp).2
    have hlen : 0 < p.2.length := by
      have hstring : p.2 ∈ (argvAt ++ envpAt).map (·.2) := List.mem_map_of_mem hp
      rw [List.map_append, h.argv, h.envp, ← List.map_append] at hstring
      obtain ⟨s, -, hs⟩ := List.mem_map.mp hstring
      rw [← hs, List.length_append]
      exact Nat.add_pos_right _ Nat.one_pos
    omega
  have hargc : argvAt.length < usizeMod := by
    have hfit := h.words_fit
    rw [length_of_strings h.argv]
    unfold startWords at hfit
    have : PGSIZE < usizeMod := by decide
    omega
  have hzero : 0 < usizeMod := by decide
  intro v hv
  simp only [stackWords, List.mem_append, List.mem_cons, List.mem_map, List.mem_flatMap,
    List.not_mem_nil, or_false] at hv
  -- the words in their order: the count, `argv`, null, `envp`, null, `auxv`, and the two nulls
  rcases hv with (((((rfl | ⟨p, hp, rfl⟩) | rfl) | ⟨p, hp, rfl⟩) | rfl) | ⟨kv, hkv, rfl | rfl⟩) |
    rfl | rfl
  · exact hargc
  · exact hptr p (List.mem_append_left _ hp)
  · exact hzero
  · exact hptr p (List.mem_append_right _ hp)
  · exact hzero
  · exact (hauxv kv hkv).1
  · exact (hauxv kv hkv).2
  · exact hzero
  · exact hzero

/-- A program that reads the page finds the start block. -/
theorem startBlock (h : StackRows base argv envp auxv sp argvAt envpAt) {m : Memory}
    (hpage : HoldsPage m base sp auxv argvAt envpAt) (hbase : 0 < base)
    (htop : base + PGSIZE ≤ usizeMod) (hkeys : ∀ kv ∈ auxv, kv.1 ≠ 0)
    (hauxv : ∀ kv ∈ auxv, kv.1 < usizeMod ∧ kv.2 < usizeMod) {fuel : Nat} (hfuel : PGSIZE ≤ fuel) :
    m.startBlock fuel (base + sp) = some ⟨argv.length, argvAt.map (base + ·.1),
      argv.map fun s => s.takeWhile (· ≠ 0), envpAt.map (base + ·.1),
      envp.map fun s => s.takeWhile (· ≠ 0), auxv⟩ := by
  obtain ⟨hbeside, hin⟩ := h.stores
  -- the stores do not overlap, so each of them can be read back
  have hbytes : ∀ p ∈ argvAt ++ envpAt ++ wordStores sp (stackWords base argvAt envpAt auxv) 0,
      m.HoldsBytes (base + p.1) p.2 := by
    intro p hp
    refine (Memory.holdsBytes_iff m _ _).mpr fun i hi => ?_
    have hend := hin p hp
    rw [Nat.add_assoc, hpage _ (by omega), storedByte_of_mem hbeside hp hi]
  have hwords : m.HoldsWords (base + sp) ([argvAt.length] ++ argvAt.map (base + ·.1) ++ [0]
      ++ envpAt.map (base + ·.1) ++ [0] ++ auxv.flatMap (fun kv => [kv.1, kv.2]) ++ 0 :: [0]) := by
    have hall := holdsWords_of_stores (fun p hp => hbytes p (List.mem_append_right _ hp))
      (h.words_small htop hauxv)
    rwa [Nat.zero_mul, Nat.add_zero] at hall
  -- every pointer of a row leads to its string, which ends with a null byte
  have hstrings : ∀ (row : List (Nat × List UInt8)) (ss : List (List UInt8)),
      row.map (·.2) = ss.map (· ++ [0]) → (∀ p ∈ row, p ∈ argvAt ++ envpAt) →
      List.Forall₂ (fun p s => m.HoldsBytes p (s ++ [0]) ∧ s.length < fuel) (row.map (base + ·.1))
        ss := by
    intro row ss hrow hsub
    refine List.forall₂_map_left_iff.mpr ((forall₂_strings hrow hsub).imp fun p s hp => ?_)
    have hend := (h.strings.2 p hp.1).2
    rw [hp.2, List.length_append, List.length_singleton] at hend
    exact ⟨hp.2 ▸ hbytes p (List.mem_append_left _ hp.1), by omega⟩
  -- a pointer is at or above the page, so it is no null pointer
  have hpos : ∀ row : List (Nat × List UInt8), 0 ∉ row.map (base + ·.1) := by
    intro row hzero
    obtain ⟨p, -, hp⟩ := List.mem_map.mp hzero
    omega
  have hfit := h.words_fit
  have hargc : argvAt.length = argv.length := length_of_strings h.argv
  have henvc : envpAt.length = envp.length := length_of_strings h.envp
  rw [← hargc]
  refine Memory.startBlock_of_holds hwords (hpos _) (hpos _) hkeys
    (hstrings _ _ h.argv fun p hp => List.mem_append_left _ hp)
    (hstrings _ _ h.envp fun p hp => List.mem_append_right _ hp) ?_
  -- the words fit in the page, and the reader has that much fuel
  rw [List.length_map, List.length_map, hargc, henvc]
  unfold startWords at hfit
  omega

end StackRows

/-! ### The run -/

/-- The byte that a process reads at an address through its page table. -/
def World.loadedByte (w : World) (pid : Nat) : Memory := fun a =>
  (w.vspaceOf pid).bind fun vs => (vs (a / PGSIZE)).bind fun pte =>
    (w.frames pte.slot).map fun fr => fr.data (pte.index * PGSIZE + a % PGSIZE)

/-- The arguments of a program: the fallback name when there are none. -/
def startArgs (fallback : String) (argv : List String) : List (List UInt8) :=
  (if argv = [] then [fallback] else argv).map utf8

/-- `setup_initial_stack` on a page at `base`. -/
def stackBody (pid base : Nat) (argv envp : List (List UInt8))
    (auxv : List (Nat × Nat)) : M Nat := do
  let slot ← allocPageFrameNoCleanup 1
  ledgerRecordFrameAlloc pid slot
  mapProcessFrame pid slot base Perms.RW 1
  let scratch ← mapScratch slot Perms.RW 1
  fillScratch scratch PGSIZE fun _ => 0
  let (sp, stores) ← getSome (initialStack base argv envp auxv) .outOfMemory
  fillScratch scratch PGSIZE (storedByte stores)
  unmapScratch scratch
  let _ ← getProcess pid
  modifyMm pid fun mm =>
    { mm.addMemoryMap (pageEntry base Perms.RW .stack slot) with stackSize := PGSIZE }
  pure (base + sp)

/-- The first stack is set up from the top of the stack region down. -/
theorem setupInitialStack_eq (pid : Nat) (fallback : String) (argv envp : List String)
    (auxv : List (Nat × Nat)) :
    setupInitialStack pid fallback argv envp auxv = (gets (·.layout) >>= fun l =>
      stackBody pid (l.stackBase - PGSIZE) (startArgs fallback argv) (envp.map utf8) auxv) := by
  unfold setupInitialStack
  refine bind_congr fun l => ?_
  generalize l.stackBase - PGSIZE = base
  unfold stackBody
  refine bind_congr fun slot => bind_congr fun _ => bind_congr fun _ => bind_congr fun scratch =>
    bind_congr fun _ => ?_
  rfl

/-- The first stack on its page. -/
theorem setupInitialStack_run {w : World} {base : Nat} (h : w.layout.stackBase = base + PGSIZE)
    (pid : Nat) (fallback : String) (argv envp : List String) (auxv : List (Nat × Nat)) :
    (setupInitialStack pid fallback argv envp auxv).run w =
      (stackBody pid base (startArgs fallback argv) (envp.map utf8) auxv).run w := by
  obtain rfl : w.layout.stackBase - PGSIZE = base := Nat.sub_eq_of_eq_add h
  have hat : ∀ (k : Layout → M Nat) (c : M Nat), k w.layout = c →
      (gets (fun w : World => w.layout) >>= k).run w = c.run w := by
    intro k c hk
    rw [run_gets_bind, hk]
  rw [setupInitialStack_eq]
  exact hat _ _ rfl

section Run

variable {pid base : Nat} {argv envp : List (List UInt8)} {auxv : List (Nat × Nat)}

/-- The page at `base` is mapped to the frame in `slot`. -/
def MappedAt (pid base slot : Nat) (w : World) : Prop :=
  ∃ vs, w.vspaceOf pid = some vs ∧ vs (base / PGSIZE) = some ⟨slot, 0, Perms.RW⟩

/-- The page at `base` is mapped to the frame in `slot`, with these bytes. -/
def StackPage (pid base slot : Nat) (page : Nat → UInt8) (w : World) : Prop :=
  MappedAt pid base slot w ∧ ∃ fr, w.frames slot = some fr ∧ ∀ o < PGSIZE, fr.data o = page o

/-- A command that leaves page tables and frames leaves the stack page. -/
theorem StackPage.keeps {slot : Nat} {page : Nat → UInt8} {α : Type} {c : M α}
    (hv : Frames World.vspaceOf c) (hf : Frames World.frames c) :
    Keeps (StackPage pid base slot page) c := by
  intro w h
  unfold StackPage MappedAt
  rw [hv w, hf w]
  exact h

/-- A new frame is there. -/
theorem allocPageFrameNoCleanup_frame (pages : Nat) :
    Triple (fun _ => True) (allocPageFrameNoCleanup pages) (fun slot w => (w.frames slot).isSome)
      fun _ _ => True := by
  unfold allocPageFrameNoCleanup
  refine Triple.bind (triple_true _) fun slot => ?_
  refine Triple.bind (R := fun _ w => (w.frames slot).isSome) ?_ fun _ => Triple.pure fun _ h => h
  exact Triple.bind (triple_true _) fun a => Triple.modify fun w _ => by simp

/-- A mapping of one page, for a process that is there. -/
theorem mapProcessFrame_mapped (slot : Nat) :
    Triple (World.Live pid) (mapProcessFrame pid slot base Perms.RW 1)
      (fun _ => MappedAt pid base slot) fun _ _ => True := by
  refine Triple.of_pre fun w₀ h₀ => ?_
  refine (mapProcessFrame_tables (v := w₀.vspaceOf) pid slot base Perms.RW 1).imp
    (fun w hw => by rw [hw]) (fun _ w hw => ?_) fun _ _ _ => trivial
  have hlive : (w₀.vspaceOf pid).isSome := by rw [World.vspaceOf_isSome]; exact h₀
  obtain ⟨vs, hvs⟩ := Option.isSome_iff_exists.mp hlive
  refine ⟨vs.map slot base Perms.RW 1, ?_, ?_⟩
  · rw [show w.vspaceOf = _ from hw, PageTables.edit, if_pos rfl, hvs]
    rfl
  · rw [VSpace.map, if_pos ⟨Nat.le_refl _, Nat.lt_succ_self _⟩, Nat.sub_self]

/-- A scratch mapping names the frame. -/
theorem mapScratch_names (slot : Nat) (perms : Perms) (pages : Nat) :
    Triple (fun _ => True) (mapScratch slot perms pages)
      (fun a w => w.scratch a = some ⟨slot, pages, perms⟩) fun _ _ => True := by
  intro w _
  rcases mapScratch_run slot perms pages w with ⟨e, hrun⟩ | ⟨a, -, hrun⟩ <;> rw [hrun]
  · exact ⟨fun _ hok => (by cases hok), fun _ _ => trivial⟩
  · refine ⟨fun a' ha' => ?_, fun _ _ => trivial⟩
    cases ha'
    exact if_pos rfl

/-- A page that is filled through its scratch mapping has the bytes. -/
theorem fillScratch_page {scratch slot : Nat} (page : Nat → UInt8) :
    Triple (fun w => MappedAt pid base slot w ∧ (w.frames slot).isSome ∧
        w.scratch scratch = some ⟨slot, 1, Perms.RW⟩) (fillScratch scratch PGSIZE page)
      (fun _ w => StackPage pid base slot page w ∧ (w.frames slot).isSome ∧
        w.scratch scratch = some ⟨slot, 1, Perms.RW⟩) fun _ _ => False := by
  refine Triple.modify fun w h => ?_
  obtain ⟨hmapped, hframe, hscratch⟩ := h
  obtain ⟨fr, hfr⟩ := Option.isSome_iff_exists.mp hframe
  rw [hscratch]
  let g (o : Nat) (b : UInt8) : UInt8 := if o < PGSIZE then page o else b
  have hself := w.frames_writeFrame_self g hfr
  refine ⟨⟨hmapped, _, hself, fun o ho => if_pos ho⟩, ?_, hscratch⟩
  rw [hself]
  rfl

/-- A start block that fits is on the page, unless a service refuses a call. -/
theorem stackBody_some {sp : Nat} {stores : List (Nat × List UInt8)}
    (h : initialStack base argv envp auxv = some (sp, stores)) :
    Serve (World.Live pid) (stackBody pid base argv envp auxv) fun v w =>
      v = base + sp ∧ ∃ slot, StackPage pid base slot (storedByte stores) w := by
  -- what a step is to keep: the frame of the page and its place in the tables
  have hframe : ∀ {α : Type} {c : M α} (slot : Nat), Frames World.readView c →
      Keeps (fun w => (w.frames slot).isSome) c :=
    fun slot hc => hc.keeps fun v => (v.2 slot).isSome
  have hmapped : ∀ {α : Type} {c : M α} (slot : Nat), Frames World.vspaceOf c →
      Keeps (MappedAt pid base slot) c :=
    fun slot hc => hc.keeps fun v => ∃ vs, v pid = some vs ∧
      vs (base / PGSIZE) = some ⟨slot, 0, Perms.RW⟩
  unfold stackBody
  refine Succeeds.bind (((allocPageFrameNoCleanup_serves 1).and_triple
    (allocPageFrameNoCleanup_frame 1)).pre fun _ h => ⟨h, trivial⟩) fun slot => ?_
  refine Succeeds.bind ((ledgerRecordFrameAlloc_serves pid slot).frame
    (hframe slot (by simp))) fun _ => ?_
  refine Succeeds.bind ((((mapProcessFrame_serves slot base Perms.RW 1).frame
    (hframe slot (by simp))).and_triple (mapProcessFrame_mapped slot)).pre
      fun _ h => ⟨h, h.1⟩) fun _ => ?_
  refine Succeeds.bind (((((mapScratch_serves slot Perms.RW 1).frame (hframe slot (by simp))).frame
    (hmapped slot (by simp))).and_triple (mapScratch_names slot Perms.RW 1)).pre
      fun _ h => ⟨h, trivial⟩) fun scratch => ?_
  refine Succeeds.bind (((fillScratch_serves scratch PGSIZE _).and_triple
    (fillScratch_page fun _ => 0)).pre fun w h => ⟨h.1.1.1, h.1.2, h.1.1.2, h.2⟩) fun _ => ?_
  -- the layout is the one that fits, so the call goes on with its stores
  rw [h, getSome_bind]
  refine Succeeds.bind (((fillScratch_serves scratch PGSIZE _).and_triple
    (fillScratch_page (storedByte stores))).pre fun w h => ⟨h.1, h.2.1.1, h.2.2⟩) fun _ => ?_
  have hkeep : ∀ {α : Type} {c : M α}, Serves pid c → Frames World.vspaceOf c →
    Frames World.frames c →
      Serve (fun w => World.Live pid w ∧ StackPage pid base slot (storedByte stores) w) c
        fun _ w => World.Live pid w ∧ StackPage pid base slot (storedByte stores) w :=
    -- the rest of the call leaves the page
    fun hc hv hf => hc.frame (StackPage.keeps hv hf)
  have hframes : ∀ {α : Type} {c : M α}, Frames World.readView c → Frames World.frames c :=
    fun hc => hc.comp Prod.snd
  refine Succeeds.bind ((hkeep (unmapScratch_serves scratch) (by simp) (hframes (by simp))).pre
    fun w h => ⟨h.1, h.2.1⟩) fun _ => ?_
  refine Succeeds.bind (hkeep getProcess_serves (by simp) (hframes (by simp))) fun _ => ?_
  refine Succeeds.bind (hkeep (modifyMm_serves pid _) (by simp) fun _ => rfl) fun _ => ?_
  exact Succeeds.pure fun w h => ⟨rfl, slot, h.2⟩

/-- A start block that does not fit is refused. -/
theorem stackBody_none (h : initialStack base argv envp auxv = none) :
    Triple (World.Live pid) (stackBody pid base argv envp auxv) (fun _ _ => False)
      fun e w => w.Marked ∨ e = .outOfMemory := by
  have hstep : ∀ {α : Type} {c : M α}, Serves pid c →
      Triple (Unless World.Marked (World.Live pid)) c
        (fun _ => Unless World.Marked (World.Live pid)) fun e w => w.Marked ∨ e = .outOfMemory :=
    fun h => h.triple.errors fun _ _ h => .inl h
  unfold stackBody
  refine Triple.pre ?_ fun w hw => (fun _ => hw : Unless World.Marked (World.Live pid) w)
  refine Triple.bind (hstep (allocPageFrameNoCleanup_serves 1)) fun slot => ?_
  refine Triple.bind (hstep (ledgerRecordFrameAlloc_serves pid slot)) fun _ => ?_
  refine Triple.bind (hstep (mapProcessFrame_serves slot base Perms.RW 1)) fun _ => ?_
  refine Triple.bind (hstep (mapScratch_serves slot Perms.RW 1)) fun scratch => ?_
  refine Triple.bind (hstep (fillScratch_serves scratch PGSIZE _)) fun _ => ?_
  rw [h]
  exact Triple.bind (R := fun _ _ => False) (Triple.throw fun _ _ => .inr rfl) fun _ _ hfalse =>
    hfalse.elim

end Run

/-! ### The round trip -/

/-- A program that reads the page through its page table finds the start block. -/
theorem StackPage.holdsPage {pid base slot sp : Nat} {w : World} {auxv : List (Nat × Nat)}
    {argvAt envpAt : List (Nat × List UInt8)} (hbase : base % PGSIZE = 0)
    (h : StackPage pid base slot (storedByte
      (argvAt ++ envpAt ++ wordStores sp (stackWords base argvAt envpAt auxv) 0)) w) :
    StackRows.HoldsPage (w.loadedByte pid) base sp auxv argvAt envpAt := by
  intro o ho
  obtain ⟨⟨vs, hvs, hpte⟩, fr, hfr, hbytes⟩ := h
  have hpage : (base + o) / PGSIZE = base / PGSIZE ∧ (base + o) % PGSIZE = o := by
    unfold PGSIZE at *
    omega
  rw [World.loadedByte, hvs, Option.bind_some, hpage.1, hpte, Option.bind_some, hfr, hpage.2,
    Option.map_some, Nat.zero_mul, Nat.zero_add, hbytes o ho]

/-- The strings of a start block lie beside each other, between its words and `stop`. -/
def StringsApart (sp words stop : Nat) (ptrs : List Nat) (strings : List (List UInt8)) : Prop :=
  ptrs.length = strings.length ∧ (ptrs.zip (strings.map (· ++ [0]))).Pairwise Beside ∧
    ∀ p ∈ ptrs.zip (strings.map (· ++ [0])), sp + words * 8 ≤ p.1 ∧ p.1 + p.2.length ≤ stop

/-- The strings lie apart from the words below them. -/
theorem StackRows.stringsApart {base sp : Nat} {argv envp : List (List UInt8)}
    {auxv : List (Nat × Nat)} {argvAt envpAt : List (Nat × List UInt8)}
    (h : StackRows base argv envp auxv sp argvAt envpAt) :
    StringsApart (base + sp) (startWords argv envp auxv) (base + PGSIZE)
      (argvAt.map (base + ·.1) ++ envpAt.map (base + ·.1)) (argv ++ envp) := by
  obtain ⟨hbeside, hin⟩ := h.strings
  have hstrings : (argv ++ envp).map (· ++ [0]) = (argvAt ++ envpAt).map (·.2) := by
    rw [List.map_append, List.map_append, h.argv, h.envp]
  have hzip : (argvAt.map (base + ·.1) ++ envpAt.map (base + ·.1)).zip
    ((argv ++ envp).map (· ++ [0]))
      = (argvAt ++ envpAt).map fun p => (base + p.1, p.2) := by
    rw [hstrings, ← List.map_append, List.zip_map']
  rw [StringsApart, hzip, List.pairwise_map]
  refine ⟨?_, hbeside.imp fun {p q} hpq => ?_, ?_⟩
  · simp only [List.length_append, List.length_map, length_of_strings h.argv,
      length_of_strings h.envp]
  · rcases hpq with hle | hle
    · exact .inl (by show base + p.1 + p.2.length ≤ base + q.1; omega)
    · exact .inr (by show base + q.1 + q.2.length ≤ base + p.1; omega)
  · intro p hp
    obtain ⟨q, hq, rfl⟩ := List.mem_map.mp hp
    obtain ⟨hlo, hhi⟩ := hin q hq
    exact ⟨by show _ ≤ base + q.1; omega, by show base + q.1 + q.2.length ≤ _; omega⟩

/-- The arguments that a program reads: the fallback name ends at its first null byte. -/
def readArgs (fallback : String) (argv : List String) : List (List UInt8) :=
  if argv = [] then [(utf8 fallback).takeWhile (· ≠ 0)] else argv.map utf8

/-- A string without a NUL byte is read to its end. -/
theorem takeWhile_of_nulFree {s : List UInt8} (h : 0 ∉ s) : s.takeWhile (· ≠ 0) = s := by
  refine List.takeWhile_eq_self_iff.mpr fun b hb => ?_
  simpa using fun h0 : b = 0 => h (h0 ▸ hb)

/-- Strings without NUL bytes are read to their ends. -/
theorem map_takeWhile_of_nulFree {l : List String} (h : ∀ s ∈ l, 0 ∉ utf8 s) :
    (l.map utf8).map (fun s => s.takeWhile (· ≠ 0)) = l.map utf8 := by
  rw [List.map_map]
  exact List.map_congr_left fun s hs => takeWhile_of_nulFree (h s hs)

/-- Arguments without NUL bytes are read as they were given. -/
theorem readArgs_eq {fallback : String} {argv : List String} (h : ∀ s ∈ argv, 0 ∉ utf8 s) :
    (startArgs fallback argv).map (fun s => s.takeWhile (· ≠ 0)) = readArgs fallback argv := by
  unfold startArgs readArgs
  by_cases hnil : argv = []
  · rw [if_pos hnil, if_pos hnil]
    rfl
  · rw [if_neg hnil, if_neg hnil]
    exact map_takeWhile_of_nulFree h

/-- The last page of the stack. -/
theorem Layout.stackPage (l : Layout) :
    ∃ base, l.stackBase = base + PGSIZE ∧ base % PGSIZE = 0 ∧ 0 < base := by
  have haligned := l.stackBase_aligned
  have hfits := l.stack_fits
  unfold PGSIZE DEFAULT_MAX_STACK_SIZE at *
  exact ⟨l.stackBase - 4096, by omega, by omega, by omega⟩

/-- The start block of a new image: it is refused exactly when it does not fit in a page. Otherwise
the stack pointer is a multiple of 16, and a program that reads the block finds its arguments, its
environment and its pairs in order, with the fallback name cut at its first null byte, in strings
that overlap neither each other nor the words. -/
theorem initial_stack_round_trip {w w' : World} {pid : Nat} {r : Except Err Nat} (fallback : String)
    (argv envp : List String) (auxv : List (Nat × Nat)) (hlive : w.Live pid)
    (hrun : (setupInitialStack pid fallback argv envp auxv).run w = (r, w'))
    (hserved : w'.refused = false) (hargv : ∀ s ∈ argv, 0 ∉ utf8 s) (henvp : ∀ s ∈ envp, 0 ∉ utf8 s)
    (hkeys : ∀ kv ∈ auxv, kv.1 ≠ 0) (hauxv : ∀ kv ∈ auxv, kv.1 < usizeMod ∧ kv.2 < usizeMod) :
    (r = .error .outOfMemory ↔
      PGSIZE < startBytes (startArgs fallback argv) (envp.map utf8) auxv) ∧
    (startBytes (startArgs fallback argv) (envp.map utf8) auxv ≤ PGSIZE → ∃ sp, r = .ok sp) ∧
    ∀ sp, r = .ok sp → sp % 16 = 0 ∧ ∃ argvAt envpAt,
      (∀ fuel, PGSIZE ≤ fuel → (w'.loadedByte pid).startBlock fuel sp =
        some ⟨(readArgs fallback argv).length, argvAt, readArgs fallback argv, envpAt,
          envp.map utf8,
          auxv⟩) ∧
      StringsApart sp (startWords (startArgs fallback argv) (envp.map utf8) auxv) w.layout.stackBase
        (argvAt ++ envpAt) (startArgs fallback argv ++ envp.map utf8) := by
  obtain ⟨base, htop, hbase, hpos⟩ := w.layout.stackPage
  have hbelow := w.layout.stack_below
  rw [htop] at hbelow ⊢
  rw [setupInitialStack_run htop] at hrun
  -- a call that is not refused leaves no mark
  have hmark : ¬ ((stackBody pid base (startArgs fallback argv) (envp.map utf8) auxv).run
    w).2.Marked := by
    rw [hrun]
    simp [World.Marked, hserved]
  rcases initialStack_cases base (startArgs fallback argv) (envp.map utf8) auxv with
    ⟨hlarge, hnone⟩ | ⟨hsmall, sp, argvAt, envpAt, hrows, hsome⟩
  · -- the block does not fit
    obtain ⟨hok, herror⟩ := stackBody_none hnone w hlive
    rw [hrun] at hok herror
    rcases r with e | v
    · obtain rfl : e = .outOfMemory := (herror e rfl).resolve_left fun hm => hmark (hrun ▸ hm)
      exact ⟨iff_of_true rfl hlarge, fun hle => absurd hlarge (Nat.not_lt.mpr hle), fun sp hsp => by
        cases hsp⟩
    · exact (hok v rfl).elim
  · obtain ⟨v, hv, rfl, slot, hpage⟩ := (stackBody_some hsome).ok hlive hmark
    rw [hrun] at hv hpage
    subst hv
    have hholds := hpage.holdsPage hbase
    refine ⟨iff_of_false (by simp) (Nat.not_lt.mpr hsmall), fun _ => ⟨_, rfl⟩, fun sp' hsp => ?_⟩
    cases hsp
    -- the alignment, the block that a program reads, and where the strings are
    refine ⟨?_, argvAt.map (base + ·.1), envpAt.map (base + ·.1), ?_, hrows.stringsApart⟩
    · have haligned := hrows.aligned
      unfold PGSIZE at hbase
      omega
    · intro fuel hfuel
      have hblock := hrows.startBlock hholds hpos (Nat.le_of_lt hbelow) hkeys hauxv hfuel
      rw [readArgs_eq hargv, map_takeWhile_of_nulFree henvp] at hblock
      rwa [← readArgs_eq hargv, List.length_map, readArgs_eq hargv]

/-- A stack for `init` with one argument and one string of the environment. -/
theorem initial_stack_round_trip_init :
    ∃ sp, ((setupInitialStack 1 "init" ["sh"] ["A=b"] [(AT_PAGESZ, PGSIZE)]).run sampleBoot).1
        = .ok sp ∧ sp % 16 = 0 ∧ ∃ argvAt envpAt,
      ((((setupInitialStack 1 "init" ["sh"] ["A=b"] [(AT_PAGESZ, PGSIZE)]).run
        sampleBoot).2.loadedByte
        1).startBlock PGSIZE sp) = some ⟨1, argvAt, [[115, 104]], envpAt, [[65, 61, 98]],
          [(AT_PAGESZ, PGSIZE)]⟩ := by
  have hlive : sampleBoot.Live 1 := by
    show sampleBoot.live 1 = true
    decide +kernel
  obtain ⟨-, hok, hblock⟩ := initial_stack_round_trip "init" ["sh"] ["A=b"] [(AT_PAGESZ, PGSIZE)]
    hlive rfl (by decide +kernel) (by decide +kernel) (by decide +kernel) (by decide) (by decide)
  obtain ⟨sp, hsp⟩ := hok (by decide +kernel)
  obtain ⟨haligned, argvAt, envpAt, hread, -⟩ := hblock sp hsp
  have hargs : readArgs "init" ["sh"] = [[115, 104]] := by decide +kernel
  have henv : ["A=b"].map utf8 = [[65, 61, 98]] := by decide +kernel
  have hfound := hread PGSIZE (Nat.le_refl _)
  rw [hargs, henv] at hfound
  exact ⟨sp, hsp, haligned, argvAt, envpAt, hfound⟩

/-- A name of three bytes, the second of which is null. -/
def cutName : String := String.ofList ['a', Char.ofNat 0, 'b']

/-- A program that starts with a fallback name that has a null byte reads the bytes before it. -/
theorem fallback_name_is_cut :
    ((setupInitialStack 1 cutName [] [] []).run sampleBoot).1 = .ok 0x3fffffc0 ∧
    ((setupInitialStack 1 cutName [] [] []).run sampleBoot).2.refused = false ∧
    (((((setupInitialStack 1 cutName [] [] []).run sampleBoot).2.loadedByte 1).startBlock PGSIZE
      0x3fffffc0).map (·.argv)) = some [[97]] ∧ utf8 cutName = [97, 0, 98] := by
  refine ⟨?_, ?_, ?_, ?_⟩ <;> decide +kernel

end Ape
