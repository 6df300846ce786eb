import Ape.Proofs.TtyOrder
import Mathlib.Data.List.Flatten

/-!
# `Ape.Proofs.TtyRaw`: typed bytes without canonical mode

Without `ICANON` and `ICRNL`, `feed_input` puts each typed byte in the readable buffer. `IGNCR`
takes the carriage returns out, and `INLCR` turns a line feed into a carriage return
(`Termios.rawByte`).

In front of the flags stands a rule of its own: a line feed right after a carriage return is
skipped, whatever the mode is, and the carriage return may have come in an earlier chunk (`kept`).
`raw_transparent_iff` says that the bytes arrive as the flags say exactly when there is no such
pair.
-/

set_option autoImplicit false

namespace Ape

variable {A : AnsiParser}

/-- What the flags make of a byte when `ICANON` and `ICRNL` are clear. -/
def Termios.rawByte (t : Termios) (raw : UInt8) : List UInt8 :=
  if raw = CR ∧ t.isIgncr then []
  else if raw = NL ∧ t.isInlcr then [CR]
  else [raw]

/-- Chunks of typed bytes in turn: the state and the echo. -/
def feedChunks (s : TtyCompatState A) : List (List UInt8) → TtyCompatState A × List UInt8
  | [] => (s, [])
  | input :: chunks =>
    let r := feedInput s input
    let r' := feedChunks r.1 chunks
    (r'.1, r.2 ++ r'.2)

/-- The carriage return that the terminal remembers. -/
def rememberedCr (wasCr : Bool) : List UInt8 := if wasCr then [CR] else []

/-- The bytes that the rule for a line feed after a carriage return leaves. -/
def kept : Bool → List UInt8 → List UInt8
  | _, [] => []
  | wasCr, raw :: input =>
    if raw = NL ∧ wasCr then kept false input else raw :: kept (decide (raw = CR)) input

/-! ### The rule for a line feed -/

/-- The bytes that are kept come in the order of the input. -/
theorem kept_sublist (wasCr : Bool) (input : List UInt8) : (kept wasCr input).Sublist input := by
  induction input generalizing wasCr with
  | nil => exact List.Sublist.refl _
  | cons raw input ih =>
    unfold kept
    split
    · exact (ih false).cons _
    · exact (ih _).cons_cons _

/-- A pair begins with the remembered carriage return, or it is in the input. -/
theorem pair_remembered {wasCr : Bool} {raw : UInt8} {input : List UInt8}
    (h : ¬ (raw = NL ∧ wasCr = true)) :
    [CR, NL] <:+: rememberedCr wasCr ++ raw :: input ↔ [CR, NL] <:+: raw :: input := by
  cases wasCr with
  | false => rfl
  | true =>
    have hraw : raw ≠ NL := fun heq => h ⟨heq, rfl⟩
    show [CR, NL] <:+: CR :: raw :: input ↔ _
    rw [List.infix_cons_iff]
    refine or_iff_right ?_
    intro hprefix
    have hpair := (List.prefix_cons_inj _).mp hprefix
    exact hraw (List.cons_prefix_cons.mp hpair).1.symm

/-- After a byte, the terminal remembers it when it is a carriage return. -/
theorem pair_cons (raw : UInt8) (input : List UInt8) :
    [CR, NL] <:+: raw :: input ↔ [CR, NL] <:+: rememberedCr (decide (raw = CR)) ++ input := by
  by_cases hcr : raw = CR
  · rw [decide_eq_true hcr, hcr]
    rfl
  · rw [decide_eq_false hcr, List.infix_cons_iff]
    refine or_iff_right ?_
    intro hprefix
    exact hcr (List.cons_prefix_cons.mp hprefix).1.symm

/-- No byte is lost to the rule exactly when there is no pair. A line feed that is skipped would
have made a byte, so what is left is shorter. -/
theorem flatMap_kept_iff (t : Termios) (wasCr : Bool) (input : List UInt8) :
    (kept wasCr input).flatMap t.rawByte = input.flatMap t.rawByte ↔
      ¬ [CR, NL] <:+: rememberedCr wasCr ++ input := by
  induction input generalizing wasCr with
  | nil =>
    refine iff_of_true rfl ?_
    cases wasCr <;> decide
  | cons raw input ih =>
    -- the newline of a pair is skipped, and the result is shorter by one
    by_cases hskip : raw = NL ∧ wasCr = true
    · obtain ⟨rfl, rfl⟩ := hskip
      have hshort : ((kept false input).flatMap t.rawByte).length
          < ((NL :: input).flatMap t.rawByte).length := by
        have hle := ((kept_sublist false input).flatMap t.rawByte).length_le
        have hone : (t.rawByte NL).length = 1 := by
          unfold Termios.rawByte
          rw [if_neg (by rintro ⟨hcr, -⟩; exact absurd hcr (by decide))]
          split <;> rfl
        rw [List.flatMap_cons, List.length_append, hone]
        omega
      refine iff_of_false ?_ ?_
      · intro heq
        rw [kept, if_pos ⟨rfl, rfl⟩] at heq
        rw [heq] at hshort
        exact lt_irrefl _ hshort
      · intro hno
        exact hno ⟨[], input, rfl⟩
    · rw [pair_remembered hskip, pair_cons, ← ih, kept, if_neg hskip, List.flatMap_cons,
        List.flatMap_cons, List.append_cancel_left_eq]

/-! ### Chunks -/

/-- What is typed in one chunk may be typed in two. -/
theorem feedInput_append (s : TtyCompatState A) (a b : List UInt8) :
    feedInput s (a ++ b) = ((feedInput (feedInput s a).1 b).1,
      (feedInput s a).2 ++ (feedInput (feedInput s a).1 b).2) := by
  induction a generalizing s with
  | nil => rfl
  | cons raw a ih =>
    rw [List.cons_append, feedInput, feedInput, ih]
    dsimp only
    rw [List.append_assoc]

/-- Chunks in turn are the same as their bytes in one chunk. -/
theorem feedChunks_eq (s : TtyCompatState A) (chunks : List (List UInt8)) :
    feedChunks s chunks = feedInput s chunks.flatten := by
  induction chunks generalizing s with
  | nil => rfl
  | cons input chunks ih => rw [List.flatten_cons, feedInput_append, feedChunks, ih]

/-- One byte without canonical mode. -/
theorem acceptByte_raw {s : TtyCompatState A} (hraw : s.termios.isIcanon = false) (b : UInt8) :
    (acceptByte s b).1.readableBuf = s.readableBuf ++ [b] := by
  unfold acceptByte
  rw [if_neg (Bool.eq_false_iff.mp hraw)]

/-- One byte that is not skipped, as the flags say. -/
theorem feedByte_raw {s : TtyCompatState A} (hraw : s.termios.isIcanon = false)
    (hicrnl : s.termios.isIcrnl = false) {raw : UInt8} (h : ¬ (raw = NL ∧ s.lastWasCr = true)) :
    (feedByte s raw).1.readableBuf = s.readableBuf ++ s.termios.rawByte raw := by
  unfold feedByte
  rw [if_neg h]
  dsimp only
  unfold translate Termios.rawByte
  by_cases hign : raw = CR ∧ s.termios.isIgncr = true
  · rw [if_pos hign, if_pos hign]
    exact (List.append_nil _).symm
  rw [if_neg hign, if_neg hign, if_neg (fun hcr => Bool.false_ne_true (hicrnl.symm.trans hcr.2))]
  by_cases hnl : raw = NL ∧ s.termios.isInlcr = true
  · rw [if_pos hnl, if_pos hnl]
    exact acceptByte_raw (s := { s with lastWasCr := decide (raw = CR) }) hraw CR
  · rw [if_neg hnl, if_neg hnl]
    exact acceptByte_raw (s := { s with lastWasCr := decide (raw = CR) }) hraw raw

/-- A chunk: the bytes that the rule leaves, as the flags say. -/
theorem feedInput_raw (input : List UInt8) {s : TtyCompatState A}
    (hraw : s.termios.isIcanon = false) (hicrnl : s.termios.isIcrnl = false) :
    (feedInput s input).1.readableBuf
      = s.readableBuf ++ (kept s.lastWasCr input).flatMap s.termios.rawByte := by
  induction input generalizing s with
  | nil => exact (List.append_nil _).symm
  | cons raw input ih =>
    have hterm := feedByte_termios s raw
    show (feedInput (feedByte s raw).1 input).1.readableBuf = _
    rw [ih (by rw [hterm]; exact hraw) (by rw [hterm]; exact hicrnl), hterm, feedByte_lastWasCr]
    by_cases hskip : raw = NL ∧ s.lastWasCr = true
    · rw [kept, if_pos hskip, feedByte, if_pos hskip, hskip.1]
      rfl
    · rw [kept, if_neg hskip, feedByte_raw hraw hicrnl hskip, List.flatMap_cons, List.append_assoc]

/-- Without canonical mode and `ICRNL`, the typed bytes arrive as `IGNCR` and `INLCR` say exactly
when no line feed comes right after a carriage return. The first byte comes after the carriage
return that the terminal remembers, if there is one. -/
theorem raw_transparent_iff (s : TtyCompatState A) (hraw : s.termios.isIcanon = false)
    (hicrnl : s.termios.isIcrnl = false) (chunks : List (List UInt8)) :
    (feedChunks s chunks).1.readableBuf
        = s.readableBuf ++ chunks.flatten.flatMap s.termios.rawByte ↔
      ¬ [CR, NL] <:+: rememberedCr s.lastWasCr ++ chunks.flatten := by
  rw [feedChunks_eq, feedInput_raw _ hraw hicrnl, List.append_cancel_left_eq, flatMap_kept_iff]

/-- A terminal with all flags clear. -/
def rawTty : TtyCompatState sampleParser := { TtyCompatState.default sampleParser with
  termios := .ofPayload [] }

/-- Three chunks of binary data. -/
theorem raw_transparent_iff_binary :
    (feedChunks rawTty [[0x0a, 0x00], [0x0d], [0xff, 0x0d, 0x0d]]).1.readableBuf
      = [0x0a, 0x00, 0x0d, 0xff, 0x0d, 0x0d] :=
  (raw_transparent_iff rawTty (by decide) (by decide) _).mpr (by decide)

/-- The line feed of a second chunk is lost. -/
theorem raw_line_feed_is_lost :
    rawTty.termios.isIcanon = false ∧ rawTty.termios.isIcrnl = false ∧
    rawTty.termios.isIgncr = false ∧ rawTty.termios.isInlcr = false ∧
    (feedChunks rawTty [[0x0d], [0x0a]]).1.readableBuf = [0x0d] ∧
    (feedChunks rawTty [[0x0d], [0x0a]]).1.readableBuf
      ≠ rawTty.readableBuf ++ [0x0d, 0x0a].flatMap rawTty.termios.rawByte := by
  decide

end Ape
