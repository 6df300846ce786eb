import Ape.Proofs.TtyRaw

/-!
# `Ape.Proofs.TtyEdit`: the editing of a line

In canonical mode the line discipline keeps the bytes of the current line apart, until a newline or
the end-of-file character completes the line. What is typed is a list of keys (`Termios.key`), after
the rules for carriage returns. The bytes that are in the line buffer at the start count as typed.

What becomes of a key is said by its place in the list. `Cancels keys e p` is an erase or a kill at
`e` that removes the byte at `p`, and `Reaches keys p` is a byte whose line is completed and that
nothing removed. `canonical_editing` says that the readable bytes are those that reach, in order.

The positions that a run holds after `n` keys are those of `Standing` and of `Completed`, by
induction on `n`: an erase takes the last position of the line, and that is the last one that
stands.
-/

set_option autoImplicit false

namespace Ape

variable {A : AnsiParser}

/-- What a byte is for the line discipline. -/
inductive Key where
  | data (b : UInt8)
  | newline
  | eof
  | erase
  | kill
  deriving DecidableEq

namespace Key

/-- The byte that the key puts in a line. -/
def byte : Key → Option UInt8
  | data b => some b
  | newline => some NL
  | _ => none

/-- A key with data has its byte. -/
theorem byte_data (b : UInt8) : (data b).byte = some b := rfl

/-- The end of a line has the newline as its byte. -/
theorem byte_newline : newline.byte = some NL := rfl

/-- The end of the input has no byte. -/
theorem byte_eof : eof.byte = none := rfl

/-- The key is data of a line. -/
def isData : Key → Bool
  | data _ => true
  | _ => false

/-- The key completes its line. -/
def completes : Key → Bool
  | newline | eof => true
  | _ => false

end Key

/-- The key of a byte. A byte that is two control characters is the first of them. -/
def Termios.key (t : Termios) (b : UInt8) : Key :=
  if b = t.verase then .erase
  else if b = t.vkill then .kill
  else if b = t.veof then .eof
  else if b = NL then .newline
  else .data b

/-- The bytes that the rules for carriage returns make of the input. -/
def normalized (t : Termios) (wasCr : Bool) (input : List UInt8) : List UInt8 :=
  (kept wasCr input).filterMap (translate t)

/-- The keys of an input, behind those of the current line. -/
def typedKeys (s : TtyCompatState A) (input : List UInt8) : List Key :=
  s.canonicalLineBuf.map Key.data ++ (normalized s.termios s.lastWasCr input).map s.termios.key

/-! ### What becomes of a byte -/

section Fate

variable (keys : List Key)

/-- There is data at `p`. -/
def DataAt (p : Nat) : Prop := ∃ b, keys[p]? = some (.data b)

/-- The line is completed at `q`. -/
def CompletedAt (q : Nat) : Prop := ∃ k, keys[q]? = some k ∧ k.completes = true

/-- The line of `p` is not completed before `n`. -/
def OpenUntil (p n : Nat) : Prop := ∀ q, p ≤ q → q < n → ¬ CompletedAt keys q

/-- The key at `e` removes the byte at `p` of the same line: a kill does, and an erase does if `p`
is the most recent byte that nothing has removed. -/
def Cancels (e p : Nat) : Prop :=
  p < e ∧ DataAt keys p ∧ OpenUntil keys p e ∧
    (keys[e]? = some .kill ∨ keys[e]? = some .erase ∧
      (∀ e', (_ : e' < e) → ¬ Cancels e' p) ∧
      ∀ p', p < p' → p' < e → DataAt keys p' → ∃ e', ∃ _ : e' < e, Cancels e' p')
termination_by e

/-- The byte at `p` reaches the readers with the keys before `n`: its line is completed, and no key
of the line removed it. -/
def Completed (n p : Nat) : Prop :=
  (∃ k, keys[p]? = some k ∧ k.byte.isSome = true) ∧ ∃ q < n, p ≤ q ∧ CompletedAt keys q ∧
    OpenUntil keys p q ∧ ∀ e < q, ¬ Cancels keys e p

/-- The byte at `p` reaches the readers. -/
def Reaches (p : Nat) : Prop := Completed keys keys.length p

/-- After the keys before `n`, the byte at `p` is on the current line. -/
def Standing (n p : Nat) : Prop :=
  p < n ∧ DataAt keys p ∧ OpenUntil keys p n ∧ ∀ e < n, ¬ Cancels keys e p

/-- The bytes at positions. -/
def bytesAt (l : List Nat) : List UInt8 := l.filterMap fun p => keys[p]?.bind Key.byte

end Fate

section Steps

variable {keys : List Key} {n p : Nat}

/-- A line stays open over one more key that does not complete it. -/
theorem OpenUntil.succ_iff (hle : p ≤ n) :
    OpenUntil keys p (n + 1) ↔ OpenUntil keys p n ∧ ¬ CompletedAt keys n := by
  constructor
  · intro h
    exact ⟨fun q hp hq => h q hp (by omega), h n hle (Nat.lt_succ_self n)⟩
  · rintro ⟨hopen, hn⟩ q hp hq
    rcases Nat.lt_succ_iff_lt_or_eq.mp hq with hlt | rfl
    · exact hopen q hp hlt
    · exact hn

/-- A line is completed by a key that completes lines. -/
theorem CompletedAt.eq {k : Key} (hk : keys[n]? = some k) :
    CompletedAt keys n ↔ k.completes = true := by
  constructor
  · rintro ⟨k', hk', hc⟩
    cases hk.symm.trans hk'
    exact hc
  · exact fun hc => ⟨k, hk, hc⟩

/-- A key that is neither an erase nor a kill removes nothing. -/
theorem not_cancels {k : Key} (hk : keys[n]? = some k) (hkill : k ≠ .kill) (herase : k ≠ .erase) :
    ¬ Cancels keys n p := by
  intro h
  rw [Cancels] at h
  obtain ⟨-, -, -, heq | ⟨heq, -⟩⟩ := h
  · exact hkill (Option.some.inj (hk.symm.trans heq))
  · exact herase (Option.some.inj (hk.symm.trans heq))

/-- What stands after one more key. -/
theorem Standing.succ_iff {k : Key} (hk : keys[n]? = some k) :
    Standing keys (n + 1) p ↔ k.completes = false ∧ (Standing keys n p ∧ ¬ Cancels keys n p ∨
      p = n ∧ k.isData = true) := by
  -- a place cannot cancel itself
  have hdata : ∀ b, k = .data b → ¬ Cancels keys n n := by
    intro b hb hc
    rw [Cancels] at hc
    exact absurd hc.1 (lt_irrefl n)
  constructor
  · rintro ⟨hlt, hd, hopen, hnone⟩
    obtain ⟨hbefore, hn⟩ := (OpenUntil.succ_iff (Nat.lt_succ_iff.mp hlt)).mp hopen
    refine ⟨Bool.eq_false_iff.mpr fun hc => hn ((CompletedAt.eq hk).mpr hc), ?_⟩
    -- the place was there before, or it is the new one
    rcases Nat.lt_succ_iff_lt_or_eq.mp hlt with hpn | rfl
    · exact .inl ⟨⟨hpn, hd, hbefore, fun e he => hnone e (by omega)⟩, hnone n (Nat.lt_succ_self n)⟩
    · obtain ⟨b, hb⟩ := hd
      cases hk.symm.trans hb
      exact .inr ⟨rfl, rfl⟩
  · rintro ⟨hc, hfate⟩
    have hn : ¬ CompletedAt keys n := by
      rw [CompletedAt.eq hk, hc]
      exact Bool.false_ne_true
    rcases hfate with ⟨⟨hpn, hd, hbefore, hnone⟩, hcancel⟩ | ⟨rfl, hd⟩
    · refine ⟨by omega, hd, (OpenUntil.succ_iff hpn.le).mpr ⟨hbefore, hn⟩, ?_⟩
      intro e he
      rcases Nat.lt_succ_iff_lt_or_eq.mp he with hlt | rfl
      · exact hnone e hlt
      · exact hcancel
    · cases k with
      | data b =>
        refine ⟨Nat.lt_succ_self _, ⟨b, hk⟩, ?_, ?_⟩
        · exact (OpenUntil.succ_iff le_rfl).mpr ⟨fun q hp hq => absurd hq (by omega), hn⟩
        · intro e he hce
          rw [Cancels] at hce
          omega
      | _ => cases hd

/-- A kill removes every byte of the line. -/
theorem kill_cancels (hk : keys[n]? = some .kill) (h : Standing keys n p) : Cancels keys n p := by
  rw [Cancels]
  exact ⟨h.1, h.2.1, h.2.2.1, .inl hk⟩

/-- An erase removes the last byte of the line. -/
theorem erase_cancels_iff (hk : keys[n]? = some .erase) (h : Standing keys n p) :
    Cancels keys n p ↔ ¬ ∃ p', p < p' ∧ Standing keys n p' := by
  rw [Cancels]
  constructor
  · rintro ⟨-, -, -, hkill | ⟨-, -, hlast⟩⟩ ⟨p', hlt, hpn, hd, -, hnone⟩
    · cases hk.symm.trans hkill
    · obtain ⟨e', he', hc⟩ := hlast p' hlt hpn hd
      exact hnone e' he' hc
  · intro hno
    refine ⟨h.1, h.2.1, h.2.2.1, .inr ⟨hk, h.2.2.2, ?_⟩⟩
    intro p' hlt hpn hd
    by_contra hstands
    refine hno ⟨p', hlt, hpn, hd, fun q hp hq => h.2.2.1 q (by omega) hq, ?_⟩
    intro e he hc
    exact hstands ⟨e, he, hc⟩

/-- What reaches the readers with one more key. -/
theorem Completed.succ_iff {k : Key} (hk : keys[n]? = some k) :
    Completed keys (n + 1) p ↔ Completed keys n p ∨
      k.completes = true ∧ (Standing keys n p ∨ p = n ∧ k.byte.isSome = true) := by
  constructor
  · rintro ⟨hbyte, q, hq, hle, hc, hopen, hnone⟩
    rcases Nat.lt_succ_iff_lt_or_eq.mp hq with hlt | rfl
    · exact .inl ⟨hbyte, q, hlt, hle, hc, hopen, hnone⟩
    refine .inr ⟨(CompletedAt.eq hk).mp hc, ?_⟩
    obtain ⟨k', hk', hsome⟩ := hbyte
    rcases hle.lt_or_eq with hlt | rfl
    · refine .inl ⟨hlt, ?_, hopen, hnone⟩
      -- a key with a byte that does not complete the line is data
      cases k' with
      | data b => exact ⟨b, hk'⟩
      | newline => exact absurd ⟨_, hk', rfl⟩ (hopen p le_rfl hlt)
      | _ => cases hsome
    · cases hk.symm.trans hk'
      exact .inr ⟨rfl, hsome⟩
  · rintro (⟨hbyte, q, hq, hrest⟩ | ⟨hc, ⟨hpn, ⟨b, hb⟩, hopen, hnone⟩ | ⟨rfl, hsome⟩⟩)
    · exact ⟨hbyte, q, by omega, hrest⟩
    · exact ⟨⟨_, hb, rfl⟩, n, Nat.lt_succ_self n, hpn.le, (CompletedAt.eq hk).mpr hc, hopen, hnone⟩
    · refine ⟨⟨k, hk, hsome⟩, p, Nat.lt_succ_self p, le_rfl, (CompletedAt.eq hk).mpr hc, ?_, ?_⟩
      · intro q hp hq
        omega
      · intro e he hce
        rw [Cancels] at hce
        omega

end Steps

/-! ### The positions of a run -/

/-- What one key at `n` does to the positions of the readable bytes and of the line. -/
def Key.place (k : Key) (n : Nat) (d : List Nat × List Nat) : List Nat × List Nat :=
  match k with
  | .data _ => (d.1, d.2 ++ [n])
  | .newline => (d.1 ++ (d.2 ++ [n]), [])
  | .eof => (d.1 ++ d.2, [])
  | .erase => (d.1, d.2.dropLast)
  | .kill => (d.1, [])

/-- The positions are those of `Completed` and of `Standing`, in order. -/
structure Placed (keys : List Key) (n : Nat) (d : List Nat × List Nat) : Prop where
  ordered : (d.1 ++ d.2).Pairwise (· < ·)
  completed : ∀ p, p ∈ d.1 ↔ Completed keys n p
  standing : ∀ p, p ∈ d.2 ↔ Standing keys n p

/-- In an ascending list, the last position is the one with no other behind it. -/
theorem mem_dropLast_iff {l : List Nat} (h : l.Pairwise (· < ·)) (p : Nat) :
    p ∈ l.dropLast ↔ p ∈ l ∧ ∃ p', p < p' ∧ p' ∈ l := by
  rcases List.eq_nil_or_concat l with rfl | ⟨front, last, rfl⟩
  · simp
  · rw [List.concat_eq_append] at h ⊢
    obtain ⟨-, -, hlast⟩ := List.pairwise_append.mp h
    rw [List.dropLast_concat]
    simp only [List.mem_append, List.mem_singleton] at hlast ⊢
    constructor
    · intro hp
      exact ⟨.inl hp, last, hlast p hp last rfl, .inr rfl⟩
    · rintro ⟨hp | rfl, p', hlt, hp'⟩
      · exact hp
      · rcases hp' with hfront | rfl
        · exact absurd (hlast p' hfront p rfl) (by omega)
        · exact absurd hlt (lt_irrefl _)

/-- One key keeps the positions right. -/
theorem Placed.step {keys : List Key} {n : Nat} {d : List Nat × List Nat} {k : Key}
    (h : Placed keys n d) (hk : keys[n]? = some k) : Placed keys (n + 1) (k.place n d) := by
  -- the places are below the number of the keys
  have hbelow : ∀ p ∈ d.1 ++ d.2, p < n := by
    intro p hp
    rcases List.mem_append.mp hp with hp | hp
    · obtain ⟨-, q, hq, hle, -⟩ := (h.completed p).mp hp
      omega
    · exact ((h.standing p).mp hp).1
  have hsnoc : (d.1 ++ (d.2 ++ [n])).Pairwise (· < ·) := by
    rw [← List.append_assoc, List.pairwise_append]
    refine ⟨h.ordered, List.pairwise_singleton _ _, ?_⟩
    intro p hp q hq
    rw [List.mem_singleton.mp hq]
    exact hbelow p hp
  -- each key against its own clause
  cases k with
  | data b =>
    refine ⟨hsnoc, ?_, ?_⟩
    · intro p
      rw [Completed.succ_iff hk]
      simpa [Key.place, Key.completes] using h.completed p
    · intro p
      rw [Standing.succ_iff hk]
      simp only [Key.place, List.mem_append, List.mem_singleton, h.standing, Key.completes,
        Key.isData, not_cancels hk (fun hne => by cases hne) (fun hne => by cases hne),
        not_false_eq_true, and_true, true_and]
  | newline =>
    refine ⟨by rw [Key.place, List.append_nil]; exact hsnoc, fun p => ?_, fun p => ?_⟩
    · rw [Completed.succ_iff hk]
      simp only [Key.place, List.mem_append, List.mem_singleton, h.standing, h.completed,
        Key.completes, Key.byte_newline, Option.isSome_some, and_true, true_and]
    · rw [Standing.succ_iff hk]
      simp [Key.place, Key.completes]
  | eof =>
    refine ⟨by rw [Key.place, List.append_nil]; exact h.ordered, fun p => ?_, fun p => ?_⟩
    · rw [Completed.succ_iff hk]
      simp only [Key.place, List.mem_append, h.standing, h.completed, Key.completes, Key.byte_eof,
        Option.isSome_none, Bool.false_eq_true, and_false, or_false, true_and]
    · rw [Standing.succ_iff hk]
      simp [Key.place, Key.completes]
  | erase =>
    obtain ⟨hfst, hsnd, hcross⟩ := List.pairwise_append.mp h.ordered
    refine ⟨?_, ?_, ?_⟩
    · refine List.pairwise_append.mpr ⟨hfst, hsnd.sublist (List.dropLast_sublist _), ?_⟩
      intro p hp q hq
      exact hcross p hp q (List.dropLast_subset _ hq)
    · intro p
      rw [Completed.succ_iff hk]
      simpa [Key.place, Key.completes] using h.completed p
    · intro p
      rw [Standing.succ_iff hk, Key.place, mem_dropLast_iff hsnd, h.standing]
      simp only [Key.completes, Key.isData, Bool.false_eq_true, and_false, or_false, true_and]
      refine and_congr_right fun hstand => ?_
      rw [erase_cancels_iff hk hstand, not_not]
      simp only [h.standing]
  | kill =>
    refine ⟨?_, ?_, ?_⟩
    · rw [Key.place, List.append_nil]
      exact (List.pairwise_append.mp h.ordered).1
    · intro p
      rw [Completed.succ_iff hk]
      simpa [Key.place, Key.completes] using h.completed p
    · intro p
      rw [Standing.succ_iff hk]
      simp only [Key.place, List.not_mem_nil, Key.completes, Key.isData, Bool.false_eq_true,
        and_false, or_false, true_and, false_iff, not_and, not_not]
      exact kill_cancels hk

/-- The positions after the first `n` keys. -/
def places (keys : List Key) : Nat → List Nat × List Nat
  | 0 => ([], [])
  | n + 1 => match keys[n]? with
    | some k => k.place n (places keys n)
    | none => places keys n

/-- One more key is placed behind those before it. -/
theorem places_succ {keys : List Key} {n : Nat} (h : n < keys.length) :
    places keys (n + 1) = keys[n].place n (places keys n) := by
  rw [places, List.getElem?_eq_getElem h]

/-- After each key all keys so far have a place. -/
theorem places_placed (keys : List Key) (n : Nat) (h : n ≤ keys.length) :
    Placed keys n (places keys n) := by
  induction n with
  | zero =>
    refine ⟨List.Pairwise.nil, ?_, ?_⟩
    · intro p
      refine iff_of_false (List.not_mem_nil) ?_
      rintro ⟨-, q, hq, -⟩
      exact absurd hq (Nat.not_lt_zero q)
    · intro p
      exact iff_of_false (List.not_mem_nil) fun hstand => absurd hstand.1 (Nat.not_lt_zero p)
  | succ n ih =>
    rw [places_succ h]
    exact (ih (Nat.le_of_succ_le h)).step (List.getElem?_eq_getElem h)

/-! ### The run -/

/-- What one key does to the readable bytes and to the line. -/
def Key.type (d : List UInt8 × List UInt8) (k : Key) : List UInt8 × List UInt8 :=
  match k with
  | .data b => (d.1, d.2 ++ [b])
  | .newline => (d.1 ++ (d.2 ++ [NL]), [])
  | .eof => (d.1 ++ d.2, [])
  | .erase => (d.1, d.2.dropLast)
  | .kill => (d.1, [])

/-- The readable bytes and the line. -/
def TtyCompatState.buffers (s : TtyCompatState A) : List UInt8 × List UInt8 :=
  (s.readableBuf, s.canonicalLineBuf)

/-- With lines, a byte that is taken in is a key that is typed into the buffers. -/
theorem acceptByte_key {s : TtyCompatState A} (hcanon : s.termios.isIcanon = true) (b : UInt8) :
    (acceptByte s b).1.buffers = (s.termios.key b).type s.buffers := by
  unfold acceptByte Termios.key
  rw [if_pos hcanon]
  split
  · rfl
  split
  · rfl
  split
  · rfl
  split
  · rename_i hnl
    rw [hnl]
    rfl
  · rfl

/-- One byte: a key, or none. -/
theorem feedByte_keys {s : TtyCompatState A} (hcanon : s.termios.isIcanon = true) (raw : UInt8)
    (input : List UInt8) :
    ((normalized s.termios s.lastWasCr (raw :: input)).map s.termios.key).foldl Key.type s.buffers
      = ((normalized s.termios (decide (raw = CR)) input).map s.termios.key).foldl Key.type
        (feedByte s raw).1.buffers := by
  unfold normalized
  rw [kept]
  by_cases hskip : raw = NL ∧ s.lastWasCr = true
  · rw [if_pos hskip, feedByte, if_pos hskip, hskip.1]
    rfl
  · rw [if_neg hskip, feedByte, if_neg hskip]
    dsimp only
    cases htr : translate s.termios raw with
    | none =>
      rw [List.filterMap_cons_none htr]
      rfl
    | some b =>
      rw [List.filterMap_cons_some htr, List.map_cons, List.foldl_cons]
      dsimp only
      rw [acceptByte_key (s := { s with lastWasCr := decide (raw = CR) }) hcanon b]
      rfl

/-- A chunk is its keys, in turn. -/
theorem feedInput_keys (input : List UInt8) {s : TtyCompatState A}
    (hcanon : s.termios.isIcanon = true) : (feedInput s input).1.buffers
      = ((normalized s.termios s.lastWasCr input).map s.termios.key).foldl Key.type s.buffers := by
  induction input generalizing s with
  | nil => rfl
  | cons raw input ih =>
    have hterm := feedByte_termios s raw
    show (feedInput (feedByte s raw).1 input).1.buffers = _
    rw [ih (by rw [hterm]; exact hcanon), feedByte_keys hcanon, hterm, feedByte_lastWasCr]

/-- The bytes of a line stand for keys. -/
theorem foldl_data (readable line bytes : List UInt8) :
    (bytes.map Key.data).foldl Key.type (readable, line) = (readable, line ++ bytes) := by
  induction bytes generalizing line with
  | nil => rw [List.append_nil]; rfl
  | cons b bytes ih =>
    rw [List.map_cons, List.foldl_cons]
    exact (ih _).trans (by rw [List.append_assoc]; rfl)

section Bytes

variable {keys : List Key} {n : Nat}

/-- The bytes at two lists of positions. -/
theorem bytesAt_append (l l' : List Nat) :
    bytesAt keys (l ++ l') = bytesAt keys l ++ bytesAt keys l' :=
  List.filterMap_append

/-- The byte at one position. -/
theorem bytesAt_singleton {k : Key} (hk : keys[n]? = some k) :
    bytesAt keys [n] = k.byte.toList := by
  cases hb : k.byte with
  | none => exact List.filterMap_cons_none (by rw [hk]; exact hb)
  | some b => exact List.filterMap_cons_some (by rw [hk]; exact hb)

/-- Each position of data has a byte, so the last one goes with the last position. -/
theorem bytesAt_dropLast {l : List Nat} (h : ∀ p ∈ l, DataAt keys p) :
    bytesAt keys l.dropLast = (bytesAt keys l).dropLast := by
  rcases List.eq_nil_or_concat l with rfl | ⟨front, last, rfl⟩
  · rfl
  · rw [List.concat_eq_append] at h ⊢
    obtain ⟨b, hb⟩ := h last (by simp)
    rw [List.dropLast_concat, bytesAt_append, bytesAt_singleton hb]
    exact List.dropLast_concat.symm

/-- The buffers have the bytes at the positions. -/
theorem foldl_type_eq (readable : List UInt8) (n : Nat) (h : n ≤ keys.length) :
    (keys.take n).foldl Key.type (readable, [])
      = (readable ++ bytesAt keys (places keys n).1, bytesAt keys (places keys n).2) := by
  induction n with
  | zero => exact Prod.ext (List.append_nil _).symm rfl
  | succ n ih =>
    have hlt : n < keys.length := h
    have hk : keys[n]? = some keys[n] := List.getElem?_eq_getElem hlt
    have hplaced := places_placed keys n hlt.le
    rw [List.take_succ_eq_append_getElem hlt, List.foldl_append, ih hlt.le, places_succ hlt,
      List.foldl_cons, List.foldl_nil]
    have hbyte := bytesAt_singleton hk
    -- a data byte goes to the line, the other keys edit or end it
    cases hkey : keys[n] with
    | data b =>
      rw [hkey] at hbyte
      simp only [Key.type, Key.place, bytesAt_append, hbyte, Key.byte_data, Option.toList_some]
    | newline =>
      rw [hkey] at hbyte
      simp only [Key.type, Key.place, bytesAt_append, hbyte, Key.byte_newline, Option.toList_some,
        List.append_assoc]
      rfl
    | eof =>
      simp only [Key.type, Key.place, bytesAt_append, List.append_assoc]
      rfl
    | erase =>
      simp only [Key.type, Key.place]
      rw [bytesAt_dropLast fun p hp => ((hplaced.standing p).mp hp).2.1]
    | kill => rfl

end Bytes

/-- What editing makes of keys: the readable bytes go on with the bytes that reach, in their order,
and the line gets no newline. -/
structure LineEdited (s s' : TtyCompatState A) (keys : List Key) : Prop where
  reaches : ∃ l : List Nat, l.Pairwise (· < ·) ∧ (∀ p, p ∈ l ↔ Reaches keys p) ∧
    s'.readableBuf = s.readableBuf ++ bytesAt keys l
  line : NL ∉ s.canonicalLineBuf → NL ∉ s'.canonicalLineBuf

/-- A newline is not data, unless it was in the line before. -/
theorem newline_not_data {s : TtyCompatState A} {input : List UInt8}
    (h : NL ∉ s.canonicalLineBuf) : Key.data NL ∉ typedKeys s input := by
  intro hmem
  rcases List.mem_append.mp hmem with hline | htyped
  · obtain ⟨b, hb, heq⟩ := List.mem_map.mp hline
    cases heq
    exact h hb
  · obtain ⟨b, -, heq⟩ := List.mem_map.mp htyped
    unfold Termios.key at heq
    split at heq
    · cases heq
    split at heq
    · cases heq
    split at heq
    · cases heq
    split at heq
    · cases heq
    · rename_i hnl
      cases heq
      exact hnl rfl

/-- With lines, typed bytes edit the line. -/
theorem feedInput_edited {s : TtyCompatState A} (hcanon : s.termios.isIcanon = true)
    (input : List UInt8) : LineEdited s (feedInput s input).1 (typedKeys s input) := by
  have hall := @foldl_type_eq (typedKeys s input) s.readableBuf (typedKeys s input).length le_rfl
  rw [List.take_length] at hall
  have hrun : (typedKeys s input).foldl Key.type (s.readableBuf, [])
      = (feedInput s input).1.buffers := by
    rw [typedKeys, List.foldl_append, foldl_data, List.nil_append, feedInput_keys input hcanon]
    rfl
  have hbuffers := hrun.symm.trans hall
  have hplaced := places_placed (typedKeys s input) _ le_rfl
  refine ⟨⟨_, (List.pairwise_append.mp hplaced.ordered).1, hplaced.completed,
    congrArg Prod.fst hbuffers⟩, ?_⟩
  intro hline hmem
  have hbytes : (feedInput s input).1.canonicalLineBuf = _ := congrArg Prod.snd hbuffers
  rw [hbytes] at hmem
  obtain ⟨p, hp, hbyte⟩ := List.mem_filterMap.mp hmem
  obtain ⟨b, hb⟩ := ((hplaced.standing p).mp hp).2.1
  rw [hb] at hbyte
  cases hbyte
  exact newline_not_data hline (List.mem_of_getElem? hb)

/-- Canonical editing is a stack for each line. The bytes that reach the readers are those whose
line is completed and that no erase and no kill of their line removed, in the order they were typed,
behind the bytes that were readable before; the line never has a newline; and how the input is cut
into calls makes no difference. -/
theorem canonical_editing (s : TtyCompatState A) (hcanon : s.termios.isIcanon = true) :
    (∀ chunks, LineEdited s (feedChunks s chunks).1 (typedKeys s chunks.flatten)) ∧
    ∀ a b, feedInput s (a ++ b) = ((feedInput (feedInput s a).1 b).1,
      (feedInput s a).2 ++ (feedInput (feedInput s a).1 b).2) := by
  refine ⟨?_, feedInput_append s⟩
  intro chunks
  rw [feedChunks_eq]
  exact feedInput_edited hcanon _

/-- A line with an erase in it, cut in the middle, and the start of the next one. -/
theorem canonical_editing_default :
    (feedChunks (.default sampleParser) [[0x61, 0x62, 0x7f], [0x63, 0x0d],
      [0x0a, 0x64]]).1.readableBuf
      = [0x61, 0x63, 0x0a] ∧
    LineEdited (.default sampleParser)
      (feedChunks (.default sampleParser) [[0x61, 0x62, 0x7f], [0x63, 0x0d], [0x0a, 0x64]]).1
      [.data 0x61, .data 0x62, .erase, .data 0x63, .newline, .data 0x64] :=
  ⟨by decide, (canonical_editing (.default sampleParser) (by decide)).1 _⟩

end Ape
