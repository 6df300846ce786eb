import Ape.Model.Tty

/-!
# `Ape.Proofs.TtyEcho`: what the echo does to the input

The echo of typed bytes goes through `TtyDevice::write`, and so through the cursor tracker.
The tracker answers some queries in the output, the device attributes and the window size,
and it puts the answers in the input buffer. A typed query is echoed, so its answer comes
back as input.

`Perform.asks` says which callbacks are answered, and `dispatched` are the callbacks of a
stretch of output. `processOutput_input` says what the tracker does to the input buffers:
it appends the answers to what is dispatched, and no more. `echo_feeds_back_iff` follows
from it, for one chunk and for two runs that differ in the echo bit alone.
-/

set_option autoImplicit false

namespace Ape

variable {A : AnsiParser}

/-! ### Answers of the cursor tracker -/

/-- The callback is a query that the tracker answers. -/
def Perform.asks : Perform → Bool
  | .csiDispatch params _ _ action =>
    action = 0x63 || (action = 0x74 && (paramRaw params 0 = 14 || paramRaw params 0 = 18))
  | .escDispatch _ _ byte => byte = 0x5a
  | _ => false

/-- The callbacks of a stretch of output, from a state of the parser. -/
def dispatched (p : A.State) : List UInt8 → List Perform
  | [] => []
  | b :: output => (A.advance p b).1 ++ dispatched (A.advance p b).2 output

/-- What the input buffers and the line discipline hold. -/
structure SameInput (s s' : TtyCompatState A) : Prop where
  readable : s.readableBuf = s'.readableBuf
  line : s.canonicalLineBuf = s'.canonicalLineBuf
  lastWasCr : s.lastWasCr = s'.lastWasCr

/-- `s'` is `s` with `answer` behind the readable bytes, as far as input goes. -/
structure Appended (s : TtyCompatState A) (answer : List UInt8) (s' : TtyCompatState A) : Prop where
  readable : s'.readableBuf = s.readableBuf ++ answer
  line : s'.canonicalLineBuf = s.canonicalLineBuf
  lastWasCr : s'.lastWasCr = s.lastWasCr
  termios : s'.termios = s.termios

/-- Nothing is appended to what is as before. -/
theorem Appended.refl (s : TtyCompatState A) : Appended s [] s :=
  ⟨(List.append_nil _).symm, rfl, rfl, rfl⟩

/-- What is appended in two steps is appended one after the other. -/
theorem Appended.trans {s s' s'' : TtyCompatState A} {a a' : List UInt8} (h : Appended s a s')
    (h' : Appended s' a' s'') : Appended s (a ++ a') s'' := by
  refine ⟨?_, h'.line.trans h.line, h'.lastWasCr.trans h.lastWasCr, h'.termios.trans h.termios⟩
  rw [h'.readable, h.readable, List.append_assoc]

/-- Two branches that append the same append it together. -/
theorem Appended.ite {s t e : TtyCompatState A} {a : List UInt8} {c : Prop} [Decidable c]
    (ht : Appended s a t) (he : Appended s a e) : Appended s a (if c then t else e) := by
  split
  · exact ht
  · exact he

/-- A change of the cursor is no answer. -/
theorem answered_cursor (s : TtyCompatState A) (row col savedRow savedCol : UInt16) :
    Appended s [] { s with
      cursorRow := row
      cursorCol := col
      savedCursorRow := savedRow
      savedCursorCol := savedCol } :=
  ⟨(List.append_nil _).symm, rfl, rfl, rfl⟩

/-- A cursor that moves answers nothing. -/
theorem moveCursor_answered (s : TtyCompatState A) (row col : UInt16) :
    Appended s [] (moveCursor s row col) := answered_cursor s row col _ _

/-- A cursor sequence answers nothing. -/
theorem csiMove_answered (s : TtyCompatState A) (params : List (List UInt16)) (action : UInt8) :
    Appended s [] (csiMove s params action) := by
  have hmove : ∀ row col, Appended s [] (moveCursor s row col) := moveCursor_answered s
  -- one move for each action, and none for the others
  exact .ite (hmove _ _) <| .ite (hmove _ _) <| .ite (hmove _ _) <| .ite (hmove _ _) <|
    .ite (hmove _ _) <| .ite (hmove _ _) <| .ite (hmove _ _) <| .ite (hmove _ _) <|
    .ite (hmove _ _) <| .ite (answered_cursor s _ _ _ _) <| .ite (hmove _ _) (Appended.refl s)

/-- An escape sequence that moves the cursor answers nothing. -/
theorem escMove_answered (s : TtyCompatState A) (byte : UInt8) :
    Appended s [] (escMove s byte) := by
  have hmove : ∀ row col, Appended s [] (moveCursor s row col) := moveCursor_answered s
  exact .ite (answered_cursor s _ _ _ _) <| .ite (hmove _ _) <| .ite (hmove _ _) <|
    .ite (hmove _ _) <| .ite (hmove _ _) <| .ite (answered_cursor s _ _ _ _) (Appended.refl s)

/-- A control character answers nothing. -/
theorem execute_answered (s : TtyCompatState A) (byte : UInt8) :
    Appended s [] (execute s byte) := by
  have hmove : ∀ row col, Appended s [] (moveCursor s row col) := moveCursor_answered s
  exact .ite (hmove _ _) <| .ite (hmove _ _) <| .ite (hmove _ _) <| .ite (hmove _ _)
    (Appended.refl s)

/-- A response is appended to the input. -/
theorem respond_answered (s : TtyCompatState A) (bytes : List UInt8) :
    Appended s bytes (respond s bytes) := ⟨rfl, rfl, rfl, rfl⟩

/-- The answers to `c` and to `t` with 14 or 18 are not empty, and there are no others. -/
theorem csiReport_eq_nil (s : TtyCompatState A) (params : List (List UInt16))
    (intermediates : List UInt8) (ignore : Bool) (action : UInt8) :
    csiReport s params intermediates action = []
      ↔ (Perform.csiDispatch params intermediates ignore action).asks = false := by
  have hreport : ∀ kind a b, windowReport kind a b ≠ [] := by
    intro kind a b h
    cases h
  unfold csiReport Perform.asks
  -- the queries are those of the device attributes and the two window reports
  by_cases hc : action = 0x63
  · rw [if_pos hc]
    refine iff_of_false ?_ (by simp [hc])
    split <;> exact List.cons_ne_nil _ _
  · rw [if_neg hc]
    by_cases ht : action = 0x74
    · rw [if_pos ht]
      by_cases h14 : paramRaw params 0 = 14
      · rw [if_pos h14]
        exact iff_of_false (hreport _ _ _) (by simp [ht, h14])
      · rw [if_neg h14]
        by_cases h18 : paramRaw params 0 = 18
        · rw [if_pos h18]
          exact iff_of_false (hreport _ _ _) (by simp [ht, h18])
        · rw [if_neg h18]
          exact iff_of_true rfl (by simp [hc, h14, h18])
    · rw [if_neg ht]
      exact iff_of_true rfl (by simp [hc, ht])

/-- An escape sequence has no report when it asks for none. -/
theorem escReport_eq_nil (intermediates : List UInt8) (ignore : Bool) (byte : UInt8) :
    escReport byte = [] ↔ (Perform.escDispatch intermediates ignore byte).asks = false := by
  unfold escReport Perform.asks
  by_cases hz : byte = 0x5a
  · rw [if_pos hz]
    exact iff_of_false (List.cons_ne_nil _ _) (by simp [hz])
  · rw [if_neg hz]
    exact iff_of_true rfl (by simp [hz])

/-- A query of the terminal has an answer, and every other callback has none. -/
theorem perform_answered (s : TtyCompatState A) (p : Perform) :
    ∃ answer, Appended s answer (perform s p) ∧ (answer = [] ↔ p.asks = false) := by
  have hquiet : ∀ {s'}, Appended s [] s' → p.asks = false →
      ∃ answer, Appended s answer s' ∧ (answer = [] ↔ p.asks = false) :=
    fun h hp => ⟨[], h, iff_of_true rfl hp⟩
  cases p with
  | print c => exact hquiet (Appended.ite (moveCursor_answered s _ _)
    (moveCursor_answered s _ _)) rfl
  | execute byte => exact hquiet (execute_answered s byte) rfl
  | csiDispatch params intermediates ignore action =>
    refine ⟨csiReport s params intermediates action, ?_, csiReport_eq_nil s _ _ _ _⟩
    exact (csiMove_answered s params action).trans (respond_answered _ _)
  | escDispatch intermediates ignore byte =>
    refine ⟨escReport byte, ?_, escReport_eq_nil _ _ _⟩
    exact (escMove_answered s byte).trans (respond_answered _ _)
  | hook => exact hquiet (Appended.refl s) rfl
  | put => exact hquiet (Appended.refl s) rfl
  | unhook => exact hquiet (Appended.refl s) rfl
  | oscDispatch => exact hquiet (Appended.refl s) rfl

/-- The callbacks of a byte, one after the other. -/
theorem performs_answered (ps : List Perform) (s : TtyCompatState A) :
    ∃ answer, Appended s answer (ps.foldl perform s) ∧
      (answer = [] ↔ ∀ p ∈ ps, p.asks = false) := by
  induction ps generalizing s with
  | nil => exact ⟨[], Appended.refl s, iff_of_true rfl (by simp)⟩
  | cons p ps ih =>
    obtain ⟨a, ha, hnil⟩ := perform_answered s p
    obtain ⟨a', ha', hnil'⟩ := ih (perform s p)
    refine ⟨a ++ a', ha.trans ha', ?_⟩
    rw [List.append_eq_nil_iff, hnil, hnil', List.forall_mem_cons]

/-- Output is answered when one of its actions asks. -/
theorem processLoop_answered (output : List UInt8) (p : A.State) (s : TtyCompatState A) :
    ∃ answer, Appended s answer (processLoop p s output).2 ∧
      (answer = [] ↔ ∀ c ∈ dispatched p output, c.asks = false) := by
  induction output generalizing p s with
  | nil => exact ⟨[], Appended.refl s, iff_of_true rfl (by simp [dispatched])⟩
  | cons b output ih =>
    obtain ⟨a, ha, hnil⟩ := performs_answered (A.advance p b).1 s
    obtain ⟨a', ha', hnil'⟩ := ih (A.advance p b).2 ((A.advance p b).1.foldl perform s)
    refine ⟨a ++ a', ha.trans ha', ?_⟩
    rw [List.append_eq_nil_iff, hnil, hnil', dispatched, List.forall_mem_append]

/-- Output changes the input by the answers to its queries alone. -/
theorem processOutput_answered (s : TtyCompatState A) (output : List UInt8) :
    ∃ answer, Appended s answer (processOutput s output) ∧
      (answer = [] ↔ ∀ c ∈ dispatched s.ansiParser output, c.asks = false) := by
  obtain ⟨a, ha, hnil⟩ :=
    processLoop_answered output s.ansiParser { s with ansiParser := A.new }
  exact ⟨a, ⟨ha.readable, ha.line, ha.lastWasCr, ha.termios⟩, hnil⟩

/-! ### The line discipline and the echo -/

/-- Two settings treat typed bytes alike. -/
structure SameTyping (t t' : Termios) : Prop where
  icanon : t.isIcanon = t'.isIcanon
  igncr : t.isIgncr = t'.isIgncr
  icrnl : t.isIcrnl = t'.isIcrnl
  inlcr : t.isInlcr = t'.isInlcr
  verase : t.verase = t'.verase
  vkill : t.vkill = t'.vkill
  veof : t.veof = t'.veof

/-- The input of two terminals that differ in the echo stays the same when a byte is taken in. -/
theorem acceptByte_same {s s' : TtyCompatState A} (h : SameInput s s')
    (ht : SameTyping s.termios s'.termios) (b : UInt8) :
    SameInput (acceptByte s b).1 (acceptByte s' b).1 := by
  -- a flush moves the line behind the readable bytes, in both devices alike
  have hflush : ∀ {r r' : TtyCompatState A}, SameInput r r' →
      SameInput (flushCanonicalToReadable r) (flushCanonicalToReadable r') := by
    intro r r' hr
    refine ⟨?_, rfl, hr.lastWasCr⟩
    show r.readableBuf ++ r.canonicalLineBuf = r'.readableBuf ++ r'.canonicalLineBuf
    rw [hr.readable, hr.line]
  have hpush : SameInput (pushLine s b) (pushLine s' b) := by
    refine ⟨h.readable, ?_, h.lastWasCr⟩
    show s.canonicalLineBuf ++ [b] = s'.canonicalLineBuf ++ [b]
    rw [h.line]
  unfold acceptByte
  -- the key of the byte is the same in both
  rw [ht.icanon, ht.verase, ht.vkill, ht.veof]
  split
  · split
    · refine ⟨h.readable, ?_, h.lastWasCr⟩
      show s.canonicalLineBuf.dropLast = s'.canonicalLineBuf.dropLast
      rw [h.line]
    · split
      · exact ⟨h.readable, rfl, h.lastWasCr⟩
      · split
        · exact hflush h
        · split
          · exact hflush hpush
          · exact hpush
  · refine ⟨?_, h.line, h.lastWasCr⟩
    show s.readableBuf ++ [b] = s'.readableBuf ++ [b]
    rw [h.readable]

/-- A typed byte is translated alike, with and without echo. -/
theorem translate_same {t t' : Termios} (ht : SameTyping t t') (raw : UInt8) :
    translate t raw = translate t' raw := by
  unfold translate
  rw [ht.igncr, ht.icrnl, ht.inlcr]

/-- A byte that is taken in leaves the modes. -/
@[simp] theorem acceptByte_termios (s : TtyCompatState A) (b : UInt8) :
    (acceptByte s b).1.termios = s.termios := by
  unfold acceptByte
  repeat' split
  all_goals rfl

/-- A typed byte leaves the modes. -/
@[simp] theorem feedByte_termios (s : TtyCompatState A) (raw : UInt8) :
    (feedByte s raw).1.termios = s.termios := by
  unfold feedByte
  split
  · rfl
  · dsimp only
    split
    · rfl
    · exact acceptByte_termios _ _

/-- Typed bytes leave the modes. -/
@[simp] theorem feedInput_termios (s : TtyCompatState A) (input : List UInt8) :
    (feedInput s input).1.termios = s.termios := by
  induction input generalizing s with
  | nil => rfl
  | cons raw input ih => exact (ih _).trans (feedByte_termios s raw)

/-- The input of two terminals that differ in the echo stays the same when a byte is typed. -/
theorem feedByte_same {s s' : TtyCompatState A} (h : SameInput s s')
    (ht : SameTyping s.termios s'.termios) (raw : UInt8) :
    SameInput (feedByte s raw).1 (feedByte s' raw).1 := by
  unfold feedByte
  rw [h.lastWasCr]
  split
  · exact ⟨h.readable, h.line, rfl⟩
  · dsimp only
    rw [translate_same ht]
    have hcr : SameInput { s with lastWasCr := decide (raw = CR) }
        { s' with lastWasCr := decide (raw = CR) } := ⟨h.readable, h.line, rfl⟩
    split
    · exact hcr
    · exact acceptByte_same hcr ht _

/-- Where the settings treat typed bytes alike, so do the states. -/
theorem feedInput_same (input : List UInt8) {s s' : TtyCompatState A} (h : SameInput s s')
    (ht : SameTyping s.termios s'.termios) :
    SameInput (feedInput s input).1 (feedInput s' input).1 := by
  induction input generalizing s s' with
  | nil => exact h
  | cons raw input ih =>
    refine ih (feedByte_same h ht raw) ?_
    rw [feedByte_termios, feedByte_termios]
    exact ht

/-- Without `ECHO` there is no echo. -/
theorem feedInput_silent (input : List UInt8) {s : TtyCompatState A}
    (h : s.termios.isEcho = false) : (feedInput s input).2 = [] := by
  induction input generalizing s with
  | nil => rfl
  | cons raw input ih =>
    have hbyte : (feedByte s raw).2 = [] := by
      unfold feedByte
      split
      · rfl
      · dsimp only
        split
        · rfl
        · exact if_neg (by rw [h]; exact Bool.false_ne_true)
    show (feedByte s raw).2 ++ (feedInput (feedByte s raw).1 input).2 = []
    rw [hbyte, List.nil_append]
    exact ih (by rw [feedByte_termios]; exact h)

/-- The state after a chunk of typed bytes and the write of its echo. -/
def echoStep (s : TtyCompatState A) (input : List UInt8) : TtyCompatState A :=
  let r := feedInput s input
  if r.2 = [] then r.1 else processOutput r.1 (ttyOutputTransform s.termios r.2)

/-- A chunk has an echo with a query in it that the cursor tracker answers. -/
def EchoAsks (s : TtyCompatState A) (input : List UInt8) : Prop :=
  ∃ c ∈ dispatched (feedInput s input).1.ansiParser
    (ttyOutputTransform s.termios (feedInput s input).2), c.asks = true

/-- No output is transformed to no output. -/
theorem ttyOutputTransform_nil (t : Termios) : ttyOutputTransform t [] = [] := by
  unfold ttyOutputTransform
  simp

/-- The answers of the host do not matter for the input. -/
theorem feedEcho_compat (d : TtyDevice A) (input : List UInt8) :
    (d.feedEcho input).2.compat = echoStep d.compat input := by
  unfold TtyDevice.feedEcho echoStep TtyDevice.write
  dsimp only
  by_cases hnil : (feedInput d.compat input).2 = []
  · rw [if_pos hnil, if_pos hnil]
  · rw [if_neg hnil, if_neg hnil, if_neg hnil, feedInput_termios]
    split <;> rfl

/-- The echo of a chunk leaves its input alone, or it appends the answers to its queries. -/
theorem echoStep_answered (s : TtyCompatState A) (input : List UInt8) :
    ∃ answer, Appended (feedInput s input).1 answer (echoStep s input) ∧
      (answer = [] ↔ ¬ EchoAsks s input) := by
  obtain ⟨a, ha, hnil⟩ := processOutput_answered (feedInput s input).1
    (ttyOutputTransform s.termios (feedInput s input).2)
  have hasks : (∀ c ∈ dispatched (feedInput s input).1.ansiParser
      (ttyOutputTransform s.termios (feedInput s input).2), c.asks = false)
        ↔ ¬ EchoAsks s input := by
    unfold EchoAsks
    simp only [not_exists, not_and, Bool.not_eq_true]
  unfold echoStep
  dsimp only
  by_cases hecho : (feedInput s input).2 = []
  · rw [if_pos hecho]
    refine ⟨[], Appended.refl _, iff_of_true rfl ?_⟩
    -- no output, no callback
    rw [← hasks, hecho, ttyOutputTransform_nil]
    intro c hc
    cases hc
  · rw [if_neg hecho]
    exact ⟨a, ha, hnil.trans hasks⟩

/-! ### The echo bit -/

/-- The byte of the local flags that has `ICANON` and `ECHO`. -/
def Termios.lflagByte (t : Termios) : UInt8 := t.bytes.get ⟨LFLAG_OFFSET, by rw [t.size]; decide⟩

/-- The settings with another byte of local flags. -/
def Termios.withLflagByte (t : Termios) (v : UInt8) : Termios :=
  ⟨t.bytes.set LFLAG_OFFSET v, by rw [List.length_set, t.size]⟩

/-- The settings with the bit `ECHO` set or cleared. -/
def Termios.setEcho (t : Termios) (on : Bool) : Termios :=
  t.withLflagByte (if on then t.lflagByte ||| 0x08 else t.lflagByte &&& 0xf7)

/-- A bit of the first byte of a little-endian word. -/
theorem leNat_and (b : UInt8) (bs : List UInt8) {m : Nat} (hm : m < 2 ^ 8) :
    leNat (b :: bs) &&& m = b.toNat &&& m := by
  apply Nat.eq_of_testBit_eq
  intro i
  have hword : leNat (b :: bs) = 2 ^ 8 * leNat bs + b.toNat := Nat.add_comm _ _
  rw [Nat.testBit_and, Nat.testBit_and, hword, Nat.testBit_two_pow_mul_add _ b.toNat_lt]
  by_cases hi : i < 8
  · rw [if_pos hi]
  · -- the mask has no bit past the byte
    have hbound : m < 2 ^ i := hm.trans_le (Nat.pow_le_pow_right (by decide) (by omega))
    rw [Nat.testBit_lt_two_pow hbound, Bool.and_false, Bool.and_false]

/-- A flag of the low byte of the local modes is a bit of that byte. -/
theorem Termios.flag_lflag (t : Termios) {m : Nat} (hm : m < 2 ^ 8) :
    t.flag LFLAG_OFFSET m = ((t.lflagByte.toNat &&& m) != 0) := by
  have hlen : LFLAG_OFFSET < t.bytes.length := by rw [t.size]; decide
  unfold Termios.flag Termios.readU32 Termios.lflagByte
  rw [List.drop_eq_getElem_cons hlen, List.take_succ_cons, leNat_and _ _ hm, List.get_eq_getElem]

/-- The low byte of the local modes is the one that was put there. -/
theorem Termios.lflagByte_with (t : Termios) (v : UInt8) : (t.withLflagByte v).lflagByte = v := by
  unfold Termios.lflagByte Termios.withLflagByte
  exact List.getElem_set_self _

/-- The input modes do not share bytes with the local ones. -/
theorem Termios.flag_iflag_with (t : Termios) (v : UInt8) (m : Nat) :
    (t.withLflagByte v).flag IFLAG_OFFSET m = t.flag IFLAG_OFFSET m := by
  unfold Termios.flag Termios.readU32 Termios.withLflagByte
  dsimp only
  have htake : ((t.bytes.set LFLAG_OFFSET v).drop IFLAG_OFFSET).take 4
      = (t.bytes.drop IFLAG_OFFSET).take 4 := List.take_set_of_le (by decide)
  rw [htake]

/-- The control characters do not share bytes with the local modes. -/
theorem Termios.readCc_with (t : Termios) (v : UInt8) (idx : Nat) (dflt : UInt8) :
    (t.withLflagByte v).readCc idx dflt = t.readCc idx dflt := by
  unfold Termios.readCc Termios.withLflagByte
  dsimp only
  have hne : LFLAG_OFFSET ≠ CC_OFFSET + idx := by
    show 12 ≠ 17 + idx
    omega
  rw [List.getElem?_set_ne hne]

/-- Bytes of local flags with one `ICANON` treat typed bytes alike. -/
theorem Termios.withLflagByte_sameTyping (t : Termios) {v v' : UInt8}
    (h : v.toNat &&& LFLAG_ICANON = v'.toNat &&& LFLAG_ICANON) :
    SameTyping (t.withLflagByte v) (t.withLflagByte v') := by
  refine ⟨?_, ?_, ?_, ?_, ?_, ?_, ?_⟩
  · unfold Termios.isIcanon
    rw [Termios.flag_lflag _ (by decide), Termios.flag_lflag _ (by decide),
      Termios.lflagByte_with, Termios.lflagByte_with, h]
  · exact (t.flag_iflag_with v _).trans (t.flag_iflag_with v' _).symm
  · exact (t.flag_iflag_with v _).trans (t.flag_iflag_with v' _).symm
  · exact (t.flag_iflag_with v _).trans (t.flag_iflag_with v' _).symm
  · exact (t.readCc_with v _ _).trans (t.readCc_with v' _ _).symm
  · exact (t.readCc_with v _ _).trans (t.readCc_with v' _ _).symm
  · exact (t.readCc_with v _ _).trans (t.readCc_with v' _ _).symm

/-- The echo flag does not change what is typed. -/
theorem Termios.setEcho_sameTyping (t : Termios) :
    SameTyping (t.setEcho true) (t.setEcho false) := by
  apply Termios.withLflagByte_sameTyping
  show (t.lflagByte ||| 0x08).toNat &&& 2 = (t.lflagByte &&& 0xf7).toNat &&& 2
  rw [UInt8.toNat_or, UInt8.toNat_and, Nat.and_or_distrib_right, Nat.and_assoc]
  exact Nat.or_zero _

/-- The echo that was switched off is off. -/
theorem Termios.isEcho_setEcho_false (t : Termios) : (t.setEcho false).isEcho = false := by
  unfold Termios.isEcho Termios.setEcho
  rw [Termios.flag_lflag _ (by decide), Termios.lflagByte_with]
  show ((t.lflagByte &&& 0xf7).toNat &&& 8 != 0) = false
  rw [UInt8.toNat_and, Nat.and_assoc]
  show (t.lflagByte.toNat &&& 0 != 0) = false
  rw [Nat.and_zero]
  rfl

/-- The state with the echo on or off. -/
def TtyCompatState.setEcho (s : TtyCompatState A) (on : Bool) : TtyCompatState A :=
  { s with termios := s.termios.setEcho on }

/-- Chunks of typed bytes, each with the write of its echo. -/
def echoRun (s : TtyCompatState A) (inputs : List (List UInt8)) : TtyCompatState A :=
  inputs.foldl echoStep s

/-- A run with one more input is one more step. -/
theorem echoRun_append_one (s : TtyCompatState A) (inputs : List (List UInt8))
    (input : List UInt8) : echoRun s (inputs ++ [input]) = echoStep (echoRun s inputs) input :=
  List.foldl_append

/-- A step of typing leaves the modes. -/
theorem echoStep_termios (s : TtyCompatState A) (input : List UInt8) :
    (echoStep s input).termios = s.termios := by
  obtain ⟨a, ha, -⟩ := echoStep_answered s input
  rw [ha.termios, feedInput_termios]

/-- A run of typing leaves the modes. -/
theorem echoRun_termios (s : TtyCompatState A) (inputs : List (List UInt8)) :
    (echoRun s inputs).termios = s.termios := by
  induction inputs generalizing s with
  | nil => rfl
  | cons input inputs ih => exact (ih _).trans (echoStep_termios s input)

/-- One more chunk keeps two runs together exactly when its echo does not ask. -/
theorem echoStep_same_iff {s s' : TtyCompatState A} (h : SameInput s s')
    (ht : SameTyping s.termios s'.termios) (hoff : s'.termios.isEcho = false)
    (input : List UInt8) :
    SameInput (echoStep s input) (echoStep s' input) ↔ ¬ EchoAsks s input := by
  have hfeed := feedInput_same input h ht
  have hsilent : echoStep s' input = (feedInput s' input).1 := if_pos (feedInput_silent input hoff)
  obtain ⟨a, ha, hnil⟩ := echoStep_answered s input
  rw [hsilent, ← hnil]
  constructor
  · intro hsame
    have hread := hsame.readable
    rw [ha.readable, hfeed.readable] at hread
    exact List.append_right_eq_self.mp hread
  · intro hempty
    refine ⟨?_, ha.line.trans hfeed.line, ha.lastWasCr.trans hfeed.lastWasCr⟩
    rw [ha.readable, hempty, List.append_nil, hfeed.readable]

/-- The echo of a chunk adds nothing to the readable bytes exactly when the cursor tracker is
asked nothing in it. Two runs over the same chunks, one with the echo and one without, hold
the same input after every chunk exactly when no echo asks. -/
theorem echo_feeds_back_iff (d : TtyDevice A) (input : List UInt8) (s : TtyCompatState A)
    (inputs : List (List UInt8)) :
    ((d.feedEcho input).2.compat.readableBuf = (feedInput d.compat input).1.readableBuf
        ↔ ¬ EchoAsks d.compat input) ∧
      ((∀ before, before <+: inputs →
          SameInput (echoRun (s.setEcho true) before) (echoRun (s.setEcho false) before))
        ↔ ∀ before input, before ++ [input] <+: inputs →
          ¬ EchoAsks (echoRun (s.setEcho true) before) input) := by
  -- one more input keeps the two devices alike exactly when its echo asks nothing
  have hstep : ∀ before input,
      SameInput (echoRun (s.setEcho true) before) (echoRun (s.setEcho false) before) →
      (SameInput (echoRun (s.setEcho true) (before ++ [input]))
          (echoRun (s.setEcho false) (before ++ [input]))
        ↔ ¬ EchoAsks (echoRun (s.setEcho true) before) input) := by
    intro before input hsame
    rw [echoRun_append_one, echoRun_append_one]
    apply echoStep_same_iff hsame
    · rw [echoRun_termios, echoRun_termios]
      exact s.termios.setEcho_sameTyping
    · rw [echoRun_termios]
      exact s.termios.isEcho_setEcho_false
  refine ⟨?_, ?_, ?_⟩
  · rw [feedEcho_compat]
    obtain ⟨a, ha, hnil⟩ := echoStep_answered d.compat input
    rw [ha.readable, ← hnil]
    exact List.append_right_eq_self
  · intro hall before input hpre
    exact (hstep before input (hall before ((List.prefix_append _ _).trans hpre))).mp
      (hall _ hpre)
  · intro hquiet before hpre
    -- the echo of every input so far was quiet
    induction before using List.reverseRecOn with
    | nil => exact ⟨rfl, rfl, rfl⟩
    | append_singleton before input ih =>
      have hsame := ih ((List.prefix_append _ _).trans hpre)
      exact (hstep before input hsame).mpr (hquiet before input hpre)

/-- The states of the sample parser: between sequences, after an escape, and in a control
sequence with the parameters so far. -/
inductive SampleState where
  | ground
  | escape
  | csi (params : List (List UInt16)) (param : UInt16) (intermediates : List UInt8)

/-- A parser of plain bytes, two-byte escapes and control sequences. -/
def sampleParser : AnsiParser where
  State := SampleState
  new := .ground
  advance
    | .ground, b =>
      if b = ESC then ([], .escape)
      else if b < 0x20 then ([.execute b], .ground)
      else ([.print (Char.ofNat b.toNat)], .ground)
    | .escape, b =>
      if b = 0x5b then ([], .csi [] 0 []) else ([.escDispatch [] false b], .ground)
    | .csi params param intermediates, b =>
      if isAsciiDigit b then ([], .csi params (param * 10 + (b - 0x30).toUInt16) intermediates)
      else if b = 0x3b then ([], .csi (params ++ [[param]]) 0 intermediates)
      else if b < 0x40 then ([], .csi params param (intermediates ++ [b]))
      else ([.csiDispatch (params ++ [[param]]) intermediates false b], .ground)

/-- A new terminal with the default settings. -/
def sampleTty : TtyDevice sampleParser := ⟨.default sampleParser, [], [], [], []⟩

/-- A typed query of the device attributes comes back with its answer. -/
theorem typed_query_is_answered :
    ¬ ∀ (A : AnsiParser) (d : TtyDevice A) (input : List UInt8),
      (d.feedEcho input).2.compat.readableBuf = (feedInput d.compat input).1.readableBuf := by
  intro h
  have hsame := h sampleParser sampleTty [ESC, 0x5b, 0x63]
  revert hsame
  decide +kernel

end Ape
