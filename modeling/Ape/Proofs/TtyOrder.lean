import Ape.Proofs.TtyEcho

/-!
# `Ape.Proofs.TtyOrder`: the order of typed bytes

A typed byte waits in the line buffer or in the readable buffer, and the mode at its arrival
says which. `LdiscRun` runs the line discipline on chunks of typed bytes, changes of the
settings and reads, in any order. Beside the state goes a `Track`: it numbers the typed bytes,
and says where each of them is. `Track.Follows` says that the numbered bytes are those of the
code, and `Track.Accounts` that no number is lost and none is there twice.

`Track.Ordered` is the order of the numbers, from the bytes that a reader got to the end of
the line buffer. `accept_kept` and `accept_raw` say what one byte does to that row. Every byte
goes behind it, except a byte without canonical mode: it goes in front of the line buffer.
`typed_order_iff` says that this is the only way in which the order is lost, over every run.
-/

set_option autoImplicit false

namespace Ape

variable {A : AnsiParser}

/-! ### Typed bytes and their numbers -/

/-- Where the typed bytes are. Each stands with its number, and `count` is the next number. The
characters that erase, kill or end a line count as removed. -/
structure Track where
  delivered : List (Nat × UInt8)
  readable : List (Nat × UInt8)
  line : List (Nat × UInt8)
  removed : List (Nat × UInt8)
  count : Nat

namespace Track

/-- Nothing is typed. -/
def empty : Track := ⟨[], [], [], [], 0⟩

/-- The bytes that are not removed, those of the readers first. -/
def kept (k : Track) : List (Nat × UInt8) := k.delivered ++ k.readable ++ k.line

/-- A byte that the carriage-return rules skip. -/
def skip (k : Track) (b : UInt8) : Track :=
  { k with removed := k.removed ++ [(k.count, b)], count := k.count + 1 }

/-- What `acceptByte` does with the byte. -/
def accept (k : Track) (t : Termios) (b : UInt8) : Track :=
  if t.isIcanon then
    if b = t.verase then
      { k with
        line := k.line.take (k.line.length - 1)
        removed := k.removed ++ k.line.drop (k.line.length - 1) ++ [(k.count, b)]
        count := k.count + 1 }
    else if b = t.vkill then
      { k with line := [], removed := k.removed ++ k.line ++ [(k.count, b)], count := k.count + 1 }
    else if b = t.veof then
      { k with
        readable := k.readable ++ k.line
        line := []
        removed := k.removed ++ [(k.count, b)]
        count := k.count + 1 }
    else if b = NL then
      { k with
        readable := k.readable ++ (k.line ++ [(k.count, b)])
        line := []
        count := k.count + 1 }
    else { k with line := k.line ++ [(k.count, b)], count := k.count + 1 }
  else { k with readable := k.readable ++ [(k.count, b)], count := k.count + 1 }

/-- What `feedByte` does with the byte. -/
def typed (k : Track) (s : TtyCompatState A) (raw : UInt8) : Track :=
  if raw = NL ∧ s.lastWasCr then k.skip raw
  else match translate s.termios raw with
    | none => k.skip raw
    | some b => k.accept s.termios b

/-- What `feedInput` does with a chunk. -/
def feed (k : Track) (s : TtyCompatState A) : List UInt8 → Track
  | [] => k
  | raw :: input => feed (k.typed s raw) (feedByte s raw).1 input

/-- What `takeReadable` gives to a reader. -/
def take (k : Track) (s : TtyCompatState A) (maxLen : Nat) : Track :=
  if maxLen = 0 ∨ ¬ canReadNow s then k
  else
    { k with
      delivered := k.delivered ++ k.readable.take maxLen
      readable := k.readable.drop maxLen }

/-- The numbered bytes are those that the readers got and that the buffers hold. -/
structure Follows (k : Track) (s : TtyCompatState A) (out : List UInt8) : Prop where
  delivered : k.delivered.map Prod.snd = out
  readable : k.readable.map Prod.snd = s.readableBuf
  line : k.line.map Prod.snd = s.canonicalLineBuf

/-- Every number is kept or removed, and only once. -/
def Accounts (k : Track) : Prop :=
  ((k.kept ++ k.removed).map Prod.fst).Perm (List.range k.count)

/-- What was typed first comes first: a kept byte is with the readers, or it is in front of
every byte that was typed later. -/
def Ordered (k : Track) : Prop := (k.kept.map Prod.fst).Pairwise (· < ·)

instance (k : Track) : Decidable k.Ordered := inferInstanceAs (Decidable (List.Pairwise _ _))

/-! ### One byte -/

/-- A byte that is taken in is numbered where the terminal puts it. -/
theorem accept_follows {k : Track} {s : TtyCompatState A} {out : List UInt8}
    (h : k.Follows s out) (b : UInt8) : (k.accept s.termios b).Follows (acceptByte s b).1 out := by
  obtain ⟨hdel, hread, hline⟩ := h
  unfold accept acceptByte
  split
  -- the keys of the canonical mode: erase, kill, end of file, newline, data
  · split
    · refine ⟨hdel, hread, ?_⟩
      show (k.line.take (k.line.length - 1)).map Prod.snd = s.canonicalLineBuf.dropLast
      rw [← List.dropLast_eq_take, List.map_dropLast, hline]
    · split
      · exact ⟨hdel, hread, rfl⟩
      · split
        · refine ⟨hdel, ?_, rfl⟩
          show (k.readable ++ k.line).map Prod.snd = s.readableBuf ++ s.canonicalLineBuf
          rw [List.map_append, hread, hline]
        · split
          · refine ⟨hdel, ?_, rfl⟩
            show (k.readable ++ (k.line ++ [(k.count, b)])).map Prod.snd
              = s.readableBuf ++ (s.canonicalLineBuf ++ [b])
            rw [List.map_append, List.map_append, hread, hline]
            rfl
          · refine ⟨hdel, hread, ?_⟩
            show (k.line ++ [(k.count, b)]).map Prod.snd = s.canonicalLineBuf ++ [b]
            rw [List.map_append, hline]
            rfl
  -- a raw byte is readable at once
  · refine ⟨hdel, ?_, hline⟩
    show (k.readable ++ [(k.count, b)]).map Prod.snd = s.readableBuf ++ [b]
    rw [List.map_append, hread]
    rfl

/-- A typed byte is numbered where the terminal puts it. -/
theorem typed_follows {k : Track} {s : TtyCompatState A} {out : List UInt8}
    (h : k.Follows s out) (raw : UInt8) : (k.typed s raw).Follows (feedByte s raw).1 out := by
  unfold typed feedByte
  split
  · exact ⟨h.delivered, h.readable, h.line⟩
  · dsimp only
    cases translate s.termios raw with
    | none => exact ⟨h.delivered, h.readable, h.line⟩
    | some b =>
      have hcr : k.Follows { s with lastWasCr := decide (raw = CR) } out :=
        ⟨h.delivered, h.readable, h.line⟩
      exact accept_follows hcr b

/-- A byte that is taken in uses one number. -/
theorem accept_count (k : Track) (t : Termios) (b : UInt8) :
    (k.accept t b).count = k.count + 1 := by
  unfold accept
  repeat' split
  all_goals rfl

/-- A typed byte uses one number. -/
theorem typed_count (k : Track) (s : TtyCompatState A) (raw : UInt8) :
    (k.typed s raw).count = k.count + 1 := by
  unfold typed
  split
  · rfl
  · split
    · rfl
    · exact accept_count k _ _

/-- The bytes of the track after a byte: those before it, and the new one. -/
theorem typed_bytes (k : Track) (s : TtyCompatState A) (raw : UInt8) :
    ∃ b, ((k.typed s raw).kept ++ (k.typed s raw).removed).Perm
      (k.kept ++ k.removed ++ [(k.count, b)]) := by
  -- an erase takes the last byte of the line
  have hline : ∀ p, k.line.count p = (k.line.take (k.line.length - 1)).count p
      + (k.line.drop (k.line.length - 1)).count p := by
    intro p
    rw [← List.count_append, List.take_append_drop]
  have hskip : ∀ b, ((k.skip b).kept ++ (k.skip b).removed).Perm
      (k.kept ++ k.removed ++ [(k.count, b)]) := by
    intro b
    show (k.kept ++ (k.removed ++ [(k.count, b)])).Perm _
    rw [List.append_assoc]
  unfold typed
  split
  -- a byte that is skipped counts as removed
  · exact ⟨raw, hskip raw⟩
  · split
    · exact ⟨raw, hskip raw⟩
    · rename_i b _
      refine ⟨b, List.perm_iff_count.mpr ?_⟩
      intro p
      unfold accept kept
      repeat' split
      all_goals simp only [List.count_append, List.count_nil]
      · rw [hline p]
        omega
      all_goals omega

/-- A byte keeps the accounts. -/
theorem typed_accounts {k : Track} (h : k.Accounts) (s : TtyCompatState A) (raw : UInt8) :
    (k.typed s raw).Accounts := by
  obtain ⟨b, hperm⟩ := typed_bytes k s raw
  have hnext : (k.kept ++ k.removed ++ [(k.count, b)]).map Prod.fst
      = (k.kept ++ k.removed).map Prod.fst ++ [k.count] := List.map_append
  have hnumbers := hperm.map Prod.fst
  rw [hnext] at hnumbers
  unfold Accounts
  rw [typed_count, List.range_succ]
  exact hnumbers.trans (h.append_right _)

/-- Every number is below the next. -/
theorem Accounts.lt {k : Track} (h : k.Accounts) {p : Nat} (hp : p ∈ k.kept.map Prod.fst) :
    p < k.count := by
  have hmem : p ∈ (k.kept ++ k.removed).map Prod.fst := by
    rw [List.map_append]
    exact List.mem_append_left _ hp
  exact List.mem_range.mp (h.mem_iff.mp hmem)

end Track

/-- The carriage-return rules do not skip the byte. -/
def accepted (t : Termios) (wasCr : Bool) (raw : UInt8) : Bool :=
  decide (¬ (raw = NL ∧ wasCr)) && (translate t raw).isSome

/-- A chunk has a byte that is not skipped. -/
def accepts (t : Termios) (wasCr : Bool) : List UInt8 → Bool
  | [] => false
  | raw :: input => accepted t wasCr raw || accepts t (decide (raw = CR)) input

/-- After a byte, the line discipline knows whether it was a carriage return. -/
theorem feedByte_lastWasCr (s : TtyCompatState A) (raw : UInt8) :
    (feedByte s raw).1.lastWasCr = decide (raw = CR) := by
  have haccept : ∀ (s : TtyCompatState A) b, (acceptByte s b).1.lastWasCr = s.lastWasCr := by
    intro s b
    unfold acceptByte
    repeat' split
    all_goals rfl
  unfold feedByte
  split
  · rename_i hskip
    rw [hskip.1]
    rfl
  · dsimp only
    split
    · rfl
    · rw [haccept]

namespace Track

/-- A byte that is not accepted is skipped. -/
theorem typed_skipped {k : Track} {s : TtyCompatState A} {raw : UInt8}
    (h : accepted s.termios s.lastWasCr raw = false) : k.typed s raw = k.skip raw := by
  unfold typed
  split
  · rfl
  · rename_i hskip
    cases htr : translate s.termios raw with
    | none => rfl
    | some b =>
      unfold accepted at h
      rw [htr, decide_eq_true hskip] at h
      cases h

/-- A byte that is accepted is taken in, translated. -/
theorem typed_accepted {k : Track} {s : TtyCompatState A} {raw : UInt8}
    (h : accepted s.termios s.lastWasCr raw = true) :
    ∃ b, k.typed s raw = k.accept s.termios b := by
  unfold accepted at h
  rw [Bool.and_eq_true, decide_eq_true_eq, Option.isSome_iff_exists] at h
  obtain ⟨hskip, b, htr⟩ := h
  refine ⟨b, ?_⟩
  unfold typed
  rw [if_neg hskip, htr]

/-- In canonical mode, a byte takes bytes from the end of the row, or it goes behind it. -/
theorem accept_kept {t : Termios} (hcanon : t.isIcanon = true) (k : Track) (b : UInt8) :
    (k.accept t b).kept <+: k.kept ∨ (k.accept t b).kept = k.kept ++ [(k.count, b)] := by
  unfold accept kept
  rw [if_pos hcanon]
  split
  -- what stays of the line is its front
  · left
    exact (List.prefix_append_right_inj _).mpr (List.take_prefix _ _)
  · split
    · left
      exact (List.prefix_append_right_inj _).mpr List.nil_prefix
    · split
      · left
        show k.delivered ++ (k.readable ++ k.line) ++ [] <+: _
        rw [List.append_nil, ← List.append_assoc]
      · split
        · right
          show k.delivered ++ (k.readable ++ (k.line ++ [(k.count, b)])) ++ [] = _
          simp only [List.append_nil, List.append_assoc]
        · right
          show k.delivered ++ k.readable ++ (k.line ++ [(k.count, b)]) = _
          simp only [List.append_assoc]

/-- Without canonical mode, a byte goes behind the readable ones. -/
theorem accept_raw {t : Termios} (hraw : t.isIcanon = false) (k : Track) (b : UInt8) :
    k.accept t b
      = { k with readable := k.readable ++ [(k.count, b)], count := k.count + 1 } := by
  unfold accept
  rw [if_neg (Bool.eq_false_iff.mp hraw)]

/-- A row that ends with the next number is in order when the rest is. -/
theorem ordered_concat {k k' : Track} (hacc : k.Accounts) (hord : k.Ordered) {b : UInt8}
    (h : k'.kept = k.kept ++ [(k.count, b)]) : k'.Ordered := by
  unfold Ordered
  rw [h, List.map_append, List.pairwise_append]
  refine ⟨hord, List.pairwise_singleton _ _, ?_⟩
  intro p hp q hq
  cases List.mem_singleton.mp hq
  exact hacc.lt hp

/-- A typed byte keeps the numbers in order, unless it overtakes the line. -/
theorem typed_ordered {k : Track} {s : TtyCompatState A} (hacc : k.Accounts)
    (hord : k.Ordered) {raw : UInt8}
    (h : s.termios.isIcanon = true ∨ k.line = [] ∨
      accepted s.termios s.lastWasCr raw = false) : (k.typed s raw).Ordered := by
  cases hb : accepted s.termios s.lastWasCr raw with
  | false =>
    rw [typed_skipped hb]
    exact hord
  | true =>
    obtain ⟨b, htyped⟩ := typed_accepted (k := k) hb
    rw [htyped]
    cases hcanon : s.termios.isIcanon with
    | true =>
      rcases accept_kept hcanon k b with hpre | hconcat
      · exact hord.sublist (hpre.sublist.map _)
      · exact ordered_concat hacc hord hconcat
    | false =>
      -- in the raw mode the line is empty here
      have hline : k.line = [] := by
        rcases h with hc | hline | hb'
        · exact absurd (hcanon.symm.trans hc) Bool.false_ne_true
        · exact hline
        · exact absurd (hb'.symm.trans hb) Bool.false_ne_true
      rw [accept_raw hcanon]
      refine ordered_concat hacc hord (b := b) ?_
      unfold kept
      dsimp only
      rw [hline, List.append_nil, List.append_nil, List.append_assoc]

/-- Without lines, a typed byte is readable at once. -/
theorem typed_raw_line {k : Track} {s : TtyCompatState A} (hraw : s.termios.isIcanon = false)
    (raw : UInt8) : (k.typed s raw).line = k.line ∧ k.readable <+: (k.typed s raw).readable := by
  cases hb : accepted s.termios s.lastWasCr raw with
  | false =>
    rw [typed_skipped hb]
    exact ⟨rfl, List.prefix_refl _⟩
  | true =>
    obtain ⟨b, htyped⟩ := typed_accepted (k := k) hb
    rw [htyped, accept_raw hraw]
    exact ⟨rfl, List.prefix_append _ _⟩

/-! ### A chunk -/

/-- Typed bytes are numbered where the terminal puts them. -/
theorem feed_follows (input : List UInt8) {k : Track} {s : TtyCompatState A} {out : List UInt8}
    (h : k.Follows s out) : (k.feed s input).Follows (feedInput s input).1 out := by
  induction input generalizing k s with
  | nil => exact h
  | cons raw input ih => exact ih (typed_follows h raw)

/-- No number is lost when bytes are typed. -/
theorem feed_accounts (input : List UInt8) {k : Track} (h : k.Accounts)
    (s : TtyCompatState A) : (k.feed s input).Accounts := by
  induction input generalizing k s with
  | nil => exact h
  | cons raw input ih => exact ih (typed_accounts h s raw) _

/-- Typed bytes keep the numbers in order, unless one overtakes the line. -/
theorem feed_ordered (input : List UInt8) {k : Track} {s : TtyCompatState A} (hacc : k.Accounts)
    (hord : k.Ordered) (h : s.termios.isIcanon = true ∨ k.line = [] ∨
      accepts s.termios s.lastWasCr input = false) : (k.feed s input).Ordered := by
  induction input generalizing k s with
  | nil => exact hord
  | cons raw input ih =>
    have hbyte : s.termios.isIcanon = true ∨ k.line = [] ∨
        accepted s.termios s.lastWasCr raw = false :=
      h.imp_right (Or.imp_right fun h => (Bool.or_eq_false_iff.mp h).1)
    refine ih (typed_accounts hacc s raw) (typed_ordered hacc hord hbyte) ?_
    rw [feedByte_termios, feedByte_lastWasCr]
    cases hcanon : s.termios.isIcanon with
    | true => exact Or.inl rfl
    | false =>
      rw [(typed_raw_line hcanon raw).1]
      rw [hcanon] at h
      exact h.imp_right (Or.imp_right fun h => (Bool.or_eq_false_iff.mp h).2)

/-- Without canonical mode, the line buffer waits, and the readable bytes stay in front. -/
theorem feed_raw_line (input : List UInt8) {k : Track} {s : TtyCompatState A}
    (hraw : s.termios.isIcanon = false) :
    (k.feed s input).line = k.line ∧ k.readable <+: (k.feed s input).readable := by
  induction input generalizing k s with
  | nil => exact ⟨rfl, List.prefix_refl _⟩
  | cons raw input ih =>
    obtain ⟨hline, hpre⟩ := typed_raw_line (k := k) hraw raw
    obtain ⟨hline', hpre'⟩ := ih (k := k.typed s raw) (s := (feedByte s raw).1)
      (by rw [feedByte_termios]; exact hraw)
    exact ⟨hline'.trans hline, hpre.trans hpre'⟩

/-- A chunk with a byte that is not skipped makes a new number readable. -/
theorem feed_raw_new (input : List UInt8) {k : Track} {s : TtyCompatState A}
    (hraw : s.termios.isIcanon = false) (h : accepts s.termios s.lastWasCr input = true) :
    ∃ x ∈ (k.feed s input).readable, k.count ≤ x.1 := by
  induction input generalizing k s with
  | nil => cases h
  | cons raw input ih =>
    have hraw' : (feedByte s raw).1.termios.isIcanon = false := by
      rw [feedByte_termios]
      exact hraw
    -- the first byte that is accepted is the new one
    cases hb : accepted s.termios s.lastWasCr raw with
    | true =>
      obtain ⟨b, htyped⟩ := typed_accepted (k := k) hb
      have hmem : (k.count, b) ∈ (k.typed s raw).readable := by
        rw [htyped, accept_raw hraw]
        exact List.mem_append_right _ (List.mem_singleton_self _)
      exact ⟨_, (feed_raw_line input hraw').2.subset hmem, Nat.le_refl _⟩
    | false =>
      have hrest : accepts (feedByte s raw).1.termios (feedByte s raw).1.lastWasCr
        input = true := by
        rw [feedByte_termios, feedByte_lastWasCr]
        exact (Bool.or_eq_true_iff.mp h).resolve_left (Bool.eq_false_iff.mp hb)
      obtain ⟨x, hx, hle⟩ := ih (k := k.typed s raw) hraw' hrest
      rw [typed_count] at hle
      exact ⟨x, hx, by omega⟩

/-- A line that waits while a newer byte becomes readable is behind it. -/
theorem feed_strands (input : List UInt8) {k : Track} {s : TtyCompatState A} (hacc : k.Accounts)
    (hraw : s.termios.isIcanon = false) (hline : k.line ≠ [])
    (h : accepts s.termios s.lastWasCr input = true) : ¬ (k.feed s input).Ordered := by
  intro hord
  obtain ⟨x, hx, hle⟩ := feed_raw_new (k := k) input hraw h
  obtain ⟨y, hy⟩ := List.exists_mem_of_ne_nil _ hline
  have hyold : y.1 < k.count :=
    hacc.lt (List.mem_map_of_mem (List.mem_append_right _ hy))
  have hyline : y ∈ (k.feed s input).line := by
    rw [(feed_raw_line input hraw).1]
    exact hy
  unfold Ordered kept at hord
  rw [List.map_append, List.pairwise_append] at hord
  have hxy : x.1 < y.1 := hord.2.2 _ (List.mem_map_of_mem (List.mem_append_right _ hx)) _
    (List.mem_map_of_mem hyline)
  omega

/-! ### A read -/

/-- The numbers of the bytes that are read are taken away with them. -/
theorem take_follows {k : Track} {s : TtyCompatState A} {out : List UInt8} (h : k.Follows s out)
    (maxLen : Nat) :
    (k.take s maxLen).Follows (takeReadable s maxLen).2 (out ++ (takeReadable s maxLen).1) := by
  unfold take takeReadable
  split
  · rw [List.append_nil]
    exact h
  · refine ⟨?_, ?_, h.line⟩
    · show (k.delivered ++ k.readable.take maxLen).map Prod.snd = out ++ s.readableBuf.take maxLen
      rw [List.map_append, h.delivered, List.map_take, h.readable]
    · show (k.readable.drop maxLen).map Prod.snd = s.readableBuf.drop maxLen
      rw [List.map_drop, h.readable]

/-- A read keeps the numbers that are kept. -/
theorem take_kept (k : Track) (s : TtyCompatState A) (maxLen : Nat) :
    (k.take s maxLen).kept = k.kept := by
  unfold take
  split
  · rfl
  · unfold kept
    rw [List.append_assoc k.delivered, List.take_append_drop]

/-- A read removes no byte and uses no number. -/
theorem take_rest (k : Track) (s : TtyCompatState A) (maxLen : Nat) :
    (k.take s maxLen).removed = k.removed ∧ (k.take s maxLen).count = k.count := by
  unfold take
  split
  · exact ⟨rfl, rfl⟩
  · exact ⟨rfl, rfl⟩

end Track

/-! ### Runs -/

/-- A step of a terminal: bytes that are typed, `TCSETS`, `TCSETSW` or `TCSETSF`, or a read
of at most `maxLen` bytes that are there. -/
inductive LdiscOp where
  | feed (input : List UInt8)
  | setTermios (payload : List UInt8)
  | take (maxLen : Nat)

/-- The state of the line discipline, what its readers got, and the track of the bytes. -/
structure LdiscRun (A : AnsiParser) where
  compat : TtyCompatState A
  delivered : List UInt8
  track : Track

namespace LdiscRun

/-- A new terminal. -/
def new (A : AnsiParser) : LdiscRun A := ⟨.default A, [], .empty⟩

/-- One operation: the device and the numbers take the same step. -/
def step (r : LdiscRun A) : LdiscOp → LdiscRun A
  | .feed input => ⟨(feedInput r.compat input).1, r.delivered, r.track.feed r.compat input⟩
  | .setTermios payload =>
    ⟨{ r.compat with termios := .ofPayload payload }, r.delivered, r.track⟩
  | .take maxLen =>
    ⟨(takeReadable r.compat maxLen).2, r.delivered ++ (takeReadable r.compat maxLen).1,
      r.track.take r.compat maxLen⟩

/-- A run of operations from the start. -/
def run (A : AnsiParser) (ops : List LdiscOp) : LdiscRun A := ops.foldl step (.new A)

/-- The track is that of the state, and it has every number once. -/
structure Ok (r : LdiscRun A) : Prop where
  follows : r.track.Follows r.compat r.delivered
  accounts : r.track.Accounts

/-- Typed bytes pass a line that waits: the terminal has left canonical mode with bytes in
the line buffer, and a byte that is not skipped is typed. -/
def Strands (r : LdiscRun A) : LdiscOp → Prop
  | .feed input =>
    r.compat.termios.isIcanon = false ∧ r.compat.canonicalLineBuf ≠ [] ∧
      accepts r.compat.termios r.compat.lastWasCr input = true
  | .setTermios _ | .take _ => False

/-- A step keeps the numbering. -/
theorem step_ok {r : LdiscRun A} (h : r.Ok) (op : LdiscOp) : (r.step op).Ok := by
  cases op with
  | feed input => exact ⟨Track.feed_follows input h.follows, Track.feed_accounts input h.accounts _⟩
  | setTermios payload => exact ⟨⟨h.follows.delivered, h.follows.readable,
    h.follows.line⟩, h.accounts⟩
  | take maxLen =>
    refine ⟨Track.take_follows h.follows maxLen, ?_⟩
    obtain ⟨hremoved, hcount⟩ := Track.take_rest r.track r.compat maxLen
    show (r.track.take r.compat maxLen).Accounts
    unfold Track.Accounts
    rw [Track.take_kept, hremoved, hcount]
    exact h.accounts

/-- A step keeps the order, unless it strands a byte. -/
theorem step_ordered {r : LdiscRun A} (h : r.Ok) (hord : r.track.Ordered) {op : LdiscOp}
    (hop : ¬ r.Strands op) : (r.step op).track.Ordered := by
  cases op with
  | feed input =>
    apply Track.feed_ordered input h.accounts hord
    by_contra hnot
    push Not at hnot
    obtain ⟨hcanon, hline, hacc⟩ := hnot
    refine hop ⟨Bool.eq_false_iff.mpr hcanon, ?_, Bool.eq_true_of_not_eq_false hacc⟩
    rw [← h.follows.line]
    exact fun hnil => hline (List.map_eq_nil_iff.mp hnil)
  | setTermios payload => exact hord
  | take maxLen =>
    show (r.track.take r.compat maxLen).Ordered
    unfold Track.Ordered
    rw [Track.take_kept]
    exact hord

/-- A step that strands a byte ends the order. -/
theorem step_strands {r : LdiscRun A} (h : r.Ok) {op : LdiscOp} (hop : r.Strands op) :
    ¬ (r.step op).track.Ordered := by
  cases op with
  | feed input =>
    obtain ⟨hraw, hline, hacc⟩ := hop
    refine Track.feed_strands input h.accounts hraw ?_ hacc
    rw [← h.follows.line] at hline
    exact fun hnil => hline (List.map_eq_nil_iff.mpr hnil)
  | setTermios payload => exact hop.elim
  | take maxLen => exact hop.elim

/-- A run with one more step. -/
theorem run_concat (ops : List LdiscOp) (op : LdiscOp) :
    run A (ops ++ [op]) = (run A ops).step op := List.foldl_append

/-- A run keeps the numbering. -/
theorem run_ok (ops : List LdiscOp) : (run A ops).Ok := by
  induction ops using List.reverseRecOn with
  | nil => exact ⟨⟨rfl, rfl, rfl⟩, List.Perm.refl _⟩
  | append_singleton ops op ih =>
    rw [run_concat]
    exact step_ok ih op

end LdiscRun

/-- In every run, the numbered bytes are those of the code, and none is lost. They are in the
order of typing in every state of the run exactly when no step types past a waiting line. -/
theorem typed_order_iff (A : AnsiParser) (ops : List LdiscOp) :
    (LdiscRun.run A ops).Ok ∧
      ((∀ before, before <+: ops → (LdiscRun.run A before).track.Ordered) ↔
        ∀ before op, before ++ [op] <+: ops → ¬ (LdiscRun.run A before).Strands op) := by
  refine ⟨LdiscRun.run_ok ops, ?_, ?_⟩
  · intro hall before op hpre hop
    apply LdiscRun.step_strands (LdiscRun.run_ok before) hop
    rw [← LdiscRun.run_concat]
    exact hall _ hpre
  · intro hnone before hpre
    induction before using List.reverseRecOn with
    | nil => exact List.Pairwise.nil
    | append_singleton before op ih =>
      rw [LdiscRun.run_concat]
      exact LdiscRun.step_ordered (LdiscRun.run_ok before)
        (ih ((List.prefix_append _ _).trans hpre)) (hnone before op hpre)

/-- The settings without canonical mode. -/
def rawSettings : List UInt8 := (Termios.default.withLflagByte 0x09).bytes

/-- `a` is typed, the terminal leaves canonical mode, and `b` is typed and read: `a` is left
behind. -/
theorem line_is_stranded :
    ¬ ∀ (A : AnsiParser) (ops : List LdiscOp), (LdiscRun.run A ops).track.Ordered := by
  intro h
  have hord := h sampleParser [.feed [0x61], .setTermios rawSettings, .feed [0x62], .take 1]
  revert hord
  decide +kernel

end Ape
