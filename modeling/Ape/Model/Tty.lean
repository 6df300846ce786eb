import Ape.Model.User

/-!
# `Ape.Model.Tty`: the terminal device

`ape/tty/state.rs`, `ape/tty/ldisc.rs`, `ape/tty/ansi.rs` and `drivers/tty.rs`. The line
discipline turns typed bytes into readable bytes and an echo. The device writes bytes of
programs, and the echo, to the host terminal, and follows the cursor in them.

The escape-sequence parser is `anstyle_parse`, which is not part of the source: an
`AnsiParser` is its state machine, and `Perform` are its callbacks. The host terminal
answers the calls of the device: `PrismReply` is an answer to one
`prism_stream_write`. A device runs on lists of answers, and a call whose answers run out
does not return.
-/

set_option autoImplicit false

namespace Ape

/-! ### The state of a terminal -/

/-- `TTY_TERMIOS_SIZE`. -/
def TTY_TERMIOS_SIZE : Nat := 44

/-- `[u8; TTY_TERMIOS_SIZE]`. -/
structure Termios where
  bytes : List UInt8
  size : bytes.length = TTY_TERMIOS_SIZE
  deriving DecidableEq

def IFLAG_OFFSET : Nat := 0
def OFLAG_OFFSET : Nat := 4
def LFLAG_OFFSET : Nat := 12
def CC_OFFSET : Nat := 17
def IFLAG_INLCR : Nat := 0x00040
def IFLAG_IGNCR : Nat := 0x00080
def IFLAG_ICRNL : Nat := 0x00100
def OFLAG_OPOST : Nat := 0x00001
def OFLAG_ONLCR : Nat := 0x00004
def OFLAG_OCRNL : Nat := 0x00008
def LFLAG_ICANON : Nat := 0x00002
def LFLAG_ECHO : Nat := 0x00008
def VERASE : Nat := 2
def VKILL : Nat := 3
def VEOF : Nat := 4
def VMIN : Nat := 6

/-- `b'\n'`. -/
def NL : UInt8 := 0x0a

/-- `b'\r'`. -/
def CR : UInt8 := 0x0d

/-- The escape byte. -/
def ESC : UInt8 := 0x1b

namespace Termios

/-- `default_termios`: `ICRNL`, `OPOST | ONLCR`, `ISIG | ICANON | ECHO`, and the control
characters. -/
def default : Termios :=
  ⟨[0x00, 0x01, 0, 0] ++ [0x05, 0, 0, 0] ++ [0, 0, 0, 0] ++ [0x0b, 0, 0, 0] ++ [0] ++
    [0x03, 0x1c, 0x7f, 0x15, 0x04, 0, 1] ++ List.replicate 20 0, by decide⟩

/-- What `TCSETS` makes of its payload. -/
def ofPayload (payload : List UInt8) : Termios :=
  ⟨(payload ++ List.replicate TTY_TERMIOS_SIZE 0).take TTY_TERMIOS_SIZE, by simp⟩

/-- `read_u32`. -/
def readU32 (t : Termios) (off : Nat) : Nat := leNat ((t.bytes.drop off).take 4)

/-- `read_cc`. -/
def readCc (t : Termios) (idx : Nat) (dflt : UInt8) : UInt8 := (t.bytes[CC_OFFSET + idx]?).getD dflt

/-- Whether a flag of a word is set. -/
def flag (t : Termios) (off bit : Nat) : Bool := (t.readU32 off &&& bit) != 0

/-- `is_igncr`. -/
def isIgncr (t : Termios) : Bool := t.flag IFLAG_OFFSET IFLAG_IGNCR

/-- `is_icrnl`. -/
def isIcrnl (t : Termios) : Bool := t.flag IFLAG_OFFSET IFLAG_ICRNL

/-- `is_inlcr`. -/
def isInlcr (t : Termios) : Bool := t.flag IFLAG_OFFSET IFLAG_INLCR

/-- `is_icanon`. -/
def isIcanon (t : Termios) : Bool := t.flag LFLAG_OFFSET LFLAG_ICANON

/-- `is_echo`. -/
def isEcho (t : Termios) : Bool := t.flag LFLAG_OFFSET LFLAG_ECHO

/-- The erase character. -/
def verase (t : Termios) : UInt8 := t.readCc VERASE 0x7f

/-- The kill character. -/
def vkill (t : Termios) : UInt8 := t.readCc VKILL 0x15

/-- The end-of-file character. -/
def veof (t : Termios) : UInt8 := t.readCc VEOF 0x04

end Termios

/-- `WindowSize`. -/
structure WindowSize where
  rows : UInt16
  cols : UInt16
  xpixel : UInt16
  ypixel : UInt16
  deriving DecidableEq

/-- The callbacks of `anstyle_parse::Perform`, with their arguments. -/
inductive Perform where
  | print (c : Char)
  | execute (byte : UInt8)
  | hook (params : List (List UInt16)) (intermediates : List UInt8) (ignore : Bool) (action : UInt8)
  | put (byte : UInt8)
  | unhook
  | oscDispatch (params : List (List UInt8)) (bellTerminated : Bool)
  | csiDispatch (params : List (List UInt16)) (intermediates : List UInt8) (ignore : Bool)
    (action : UInt8)
  | escDispatch (intermediates : List UInt8) (ignore : Bool) (byte : UInt8)

/-- `anstyle_parse::Parser`: the callbacks of one byte, and the state after it. -/
structure AnsiParser where
  State : Type
  new : State
  advance : State → UInt8 → List Perform × State

variable {A : AnsiParser}

/-- `TtyCompatState`. -/
structure TtyCompatState (A : AnsiParser) where
  termios : Termios
  winsize : WindowSize
  pgrp : Int
  canonicalLineBuf : List UInt8
  readableBuf : List UInt8
  cursorRow : UInt16
  cursorCol : UInt16
  savedCursorRow : UInt16
  savedCursorCol : UInt16
  lastWasCr : Bool
  ansiParser : A.State

/-- `TtyCompatState::default`. -/
def TtyCompatState.default (A : AnsiParser) : TtyCompatState A where
  termios := .default
  winsize := ⟨25, 80, 800, 600⟩
  pgrp := 0
  canonicalLineBuf := []
  readableBuf := []
  cursorRow := 1
  cursorCol := 1
  savedCursorRow := 1
  savedCursorCol := 1
  lastWasCr := false
  ansiParser := A.new

/-! ### The line discipline -/

/-- `b"\x08 \x08"`. -/
def ERASE_ECHO : List UInt8 := [0x08, 0x20, 0x08]

/-- The byte that a typed byte stands for: `none` where the loop skips it. -/
def translate (t : Termios) (raw : UInt8) : Option UInt8 :=
  if raw = CR ∧ t.isIgncr then none
  else if raw = CR ∧ t.isIcrnl then some NL
  else if raw = NL ∧ t.isInlcr then some CR
  else some raw

/-- `flush_canonical_to_readable`. -/
def flushCanonicalToReadable (s : TtyCompatState A) : TtyCompatState A :=
  { s with readableBuf := s.readableBuf ++ s.canonicalLineBuf, canonicalLineBuf := [] }

/-- `state.canonical_line_buf.push_back(b)`. -/
def pushLine (s : TtyCompatState A) (b : UInt8) : TtyCompatState A :=
  { s with canonicalLineBuf := s.canonicalLineBuf ++ [b] }

/-- `canonical_erase`, and its plain form when there is no echo. -/
def canonicalErase (s : TtyCompatState A) : TtyCompatState A × List UInt8 :=
  ({ s with canonicalLineBuf := s.canonicalLineBuf.dropLast },
   if s.canonicalLineBuf = [] then [] else ERASE_ECHO)

/-- `canonical_kill`, and its plain form when there is no echo. -/
def canonicalKill (s : TtyCompatState A) : TtyCompatState A × List UInt8 :=
  ({ s with canonicalLineBuf := [] }, s.canonicalLineBuf.flatMap fun _ => ERASE_ECHO)

/-- The body of the loop of `feed_input` for a byte that is not skipped: the state, and what
is echoed when there is an echo. -/
def acceptByte (s : TtyCompatState A) (b : UInt8) : TtyCompatState A × List UInt8 :=
  if s.termios.isIcanon then
    if b = s.termios.verase then canonicalErase s
    else if b = s.termios.vkill then canonicalKill s
    else if b = s.termios.veof then (flushCanonicalToReadable s, [])
    else if b = NL then (flushCanonicalToReadable (pushLine s b), [b])
    else (pushLine s b, [b])
  else ({ s with readableBuf := s.readableBuf ++ [b] }, [b])

/-- One round of the loop of `feed_input`. -/
def feedByte (s : TtyCompatState A) (raw : UInt8) : TtyCompatState A × List UInt8 :=
  if raw = NL ∧ s.lastWasCr then ({ s with lastWasCr := false }, [])
  else
    let s := { s with lastWasCr := decide (raw = CR) }
    match translate s.termios raw with
    | none => (s, [])
    | some b =>
      let r := acceptByte s b
      (r.1, if s.termios.isEcho then r.2 else [])

/-- `feed_input`: the state and the echo. -/
def feedInput (s : TtyCompatState A) : List UInt8 → TtyCompatState A × List UInt8
  | [] => (s, [])
  | raw :: input =>
    let r := feedByte s raw
    let r' := feedInput r.1 input
    (r'.1, r.2 ++ r'.2)

/-- `can_read_now`. -/
def canReadNow (s : TtyCompatState A) : Bool :=
  if s.readableBuf = [] then false
  else if s.termios.isIcanon then true
  else
    let vmin := (s.termios.readCc VMIN 1).toNat
    if vmin = 0 then true else decide (vmin ≤ s.readableBuf.length)

/-- `take_readable`. -/
def takeReadable (s : TtyCompatState A) (maxLen : Nat) : List UInt8 × TtyCompatState A :=
  if maxLen = 0 ∨ ¬ canReadNow s then ([], s)
  else (s.readableBuf.take maxLen, { s with readableBuf := s.readableBuf.drop maxLen })

/-! ### The cursor tracker -/

/-- `a.saturating_add(b)` of two `u16`. -/
def satAdd16 (a b : UInt16) : UInt16 :=
  if a.toNat + b.toNat < 2 ^ 16 then a + b else 0xffff

/-- `a.saturating_sub(b)` of two `u16`. -/
def satSub16 (a b : UInt16) : UInt16 := if b ≤ a then a - b else 0

/-- `rows_max`. -/
def rowsMax (s : TtyCompatState A) : UInt16 := max s.winsize.rows 1

/-- `cols_max`. -/
def colsMax (s : TtyCompatState A) : UInt16 := max s.winsize.cols 1

/-- `clamp_row`. -/
def clampRow (s : TtyCompatState A) (row : UInt16) : UInt16 := min (max row 1) (rowsMax s)

/-- `clamp_col`. -/
def clampCol (s : TtyCompatState A) (col : UInt16) : UInt16 := min (max col 1) (colsMax s)

/-- `param_raw`. -/
def paramRaw (params : List (List UInt16)) (idx : Nat) : UInt16 :=
  ((params[idx]?).bind (·.head?)).getD 0

/-- `param_or`. -/
def paramOr (params : List (List UInt16)) (idx : Nat) (dflt : UInt16) : UInt16 :=
  if paramRaw params idx = 0 then dflt else paramRaw params idx

/-- The bytes of characters. -/
def asciiBytes (cs : List Char) : List UInt8 := cs.map fun c => UInt8.ofNat c.toNat

/-- `respond`. -/
def respond (s : TtyCompatState A) (bytes : List UInt8) : TtyCompatState A :=
  { s with readableBuf := s.readableBuf ++ bytes }

/-- A row and a column of the cursor. -/
def moveCursor (s : TtyCompatState A) (row col : UInt16) : TtyCompatState A :=
  { s with cursorRow := row, cursorCol := col }

/-- `handle_printable`. -/
def handlePrintable (s : TtyCompatState A) : TtyCompatState A :=
  let col := satAdd16 s.cursorCol 1
  if colsMax s < col then moveCursor s (clampRow s (satAdd16 s.cursorRow 1)) 1
  else moveCursor s s.cursorRow col

/-- `execute`. -/
def execute (s : TtyCompatState A) (byte : UInt8) : TtyCompatState A :=
  if byte = NL then moveCursor s (clampRow s (satAdd16 s.cursorRow 1)) 1
  else if byte = CR then moveCursor s s.cursorRow 1
  else if byte = 0x08 then moveCursor s s.cursorRow (clampCol s (satSub16 s.cursorCol 1))
  else if byte = 0x09 then
    moveCursor s s.cursorRow (clampCol s (((s.cursorCol - 1) / 8 + 1) * 8 + 1))
  else s

/-- `"\x1b[{kind};{a};{b}t"`. -/
def windowReport (kind : Char) (a b : UInt16) : List UInt8 :=
  [ESC] ++ asciiBytes (['[', kind, ';'] ++ Nat.toDigits 10 a.toNat ++ [';'] ++
    Nat.toDigits 10 b.toNat ++ ['t'])

/-- `"\x1b[?1;2c"`. -/
def primaryAttributes : List UInt8 := [ESC] ++ asciiBytes ['[', '?', '1', ';', '2', 'c']

/-- `"\x1b[>0;0;0c"`. -/
def secondaryAttributes : List UInt8 :=
  [ESC] ++ asciiBytes ['[', '>', '0', ';', '0', ';', '0', 'c']

/-- What `csi_dispatch` puts in the input: the answers to `c` and `t`. -/
def csiReport (s : TtyCompatState A) (params : List (List UInt16)) (intermediates : List UInt8)
    (action : UInt8) : List UInt8 :=
  if action = 0x63 then
    if intermediates.head?.getD 0 = 0x3e then secondaryAttributes else primaryAttributes
  else if action = 0x74 then
    if paramRaw params 0 = 14 then windowReport '4' (max s.winsize.ypixel 1)
      (max s.winsize.xpixel 1)
    else if paramRaw params 0 = 18 then windowReport '8' (rowsMax s) (colsMax s)
    else []
  else []

/-- Where `csi_dispatch` moves the cursor. -/
def csiMove (s : TtyCompatState A) (params : List (List UInt16)) (action : UInt8) :
    TtyCompatState A :=
  let n := paramOr params 0 1
  if action = 0x48 ∨ action = 0x66 then
    moveCursor s (clampRow s n) (clampCol s (paramOr params 1 1))
  else if action = 0x41 then moveCursor s (clampRow s (satSub16 s.cursorRow n)) s.cursorCol
  else if action = 0x42 then moveCursor s (clampRow s (satAdd16 s.cursorRow n)) s.cursorCol
  else if action = 0x43 then moveCursor s s.cursorRow (clampCol s (satAdd16 s.cursorCol n))
  else if action = 0x44 then moveCursor s s.cursorRow (clampCol s (satSub16 s.cursorCol n))
  else if action = 0x45 then moveCursor s (clampRow s (satAdd16 s.cursorRow n)) 1
  else if action = 0x46 then moveCursor s (clampRow s (satSub16 s.cursorRow n)) 1
  else if action = 0x47 then moveCursor s s.cursorRow (clampCol s n)
  else if action = 0x64 then moveCursor s (clampRow s n) s.cursorCol
  else if action = 0x73 then { s with savedCursorRow := s.cursorRow, savedCursorCol := s.cursorCol }
  else if action = 0x75 then
    moveCursor s (clampRow s s.savedCursorRow) (clampCol s s.savedCursorCol)
  else s

/-- `csi_dispatch`: an action reports or moves, never both. -/
def csiDispatch (s : TtyCompatState A) (params : List (List UInt16)) (intermediates : List UInt8)
    (action : UInt8) : TtyCompatState A :=
  respond (csiMove s params action) (csiReport s params intermediates action)

/-- What `esc_dispatch` puts in the input. -/
def escReport (byte : UInt8) : List UInt8 := if byte = 0x5a then primaryAttributes else []

/-- Where `esc_dispatch` moves the cursor. -/
def escMove (s : TtyCompatState A) (byte : UInt8) : TtyCompatState A :=
  if byte = 0x37 then { s with savedCursorRow := s.cursorRow, savedCursorCol := s.cursorCol }
  else if byte = 0x38 then
    moveCursor s (clampRow s s.savedCursorRow) (clampCol s s.savedCursorCol)
  else if byte = 0x44 then moveCursor s (clampRow s (satAdd16 s.cursorRow 1)) s.cursorCol
  else if byte = 0x45 then moveCursor s (clampRow s (satAdd16 s.cursorRow 1)) 1
  else if byte = 0x4d then moveCursor s (clampRow s (satSub16 s.cursorRow 1)) s.cursorCol
  else if byte = 0x63 then
    { s with cursorRow := 1, cursorCol := 1, savedCursorRow := 1, savedCursorCol := 1 }
  else s

/-- `esc_dispatch`. -/
def escDispatch (s : TtyCompatState A) (byte : UInt8) : TtyCompatState A :=
  respond (escMove s byte) (escReport byte)

/-- What a callback of `TtyPerformer` does. -/
def perform (s : TtyCompatState A) : Perform → TtyCompatState A
  | .print _ => handlePrintable s
  | .execute byte => execute s byte
  | .csiDispatch params intermediates _ action => csiDispatch s params intermediates action
  | .escDispatch _ _ byte => escDispatch s byte
  | .hook _ _ _ _ | .put _ | .unhook | .oscDispatch _ _ => s

/-- The loop of `process_output`, with the parser taken out of the state. -/
def processLoop (p : A.State) (s : TtyCompatState A) : List UInt8 → A.State × TtyCompatState A
  | [] => (p, s)
  | b :: output =>
    let r := A.advance p b
    processLoop r.2 (r.1.foldl perform s) output

/-- `process_output`. -/
def processOutput (s : TtyCompatState A) (output : List UInt8) : TtyCompatState A :=
  let r := processLoop s.ansiParser { s with ansiParser := A.new } output
  { r.2 with ansiParser := r.1 }

/-! ### The output of a terminal -/

/-- `tty_output_transform`. -/
def ttyOutputTransform (t : Termios) (input : List UInt8) : List UInt8 :=
  let opost := t.flag OFLAG_OFFSET OFLAG_OPOST
  let onlcr := t.flag OFLAG_OFFSET OFLAG_ONLCR
  let ocrnl := t.flag OFLAG_OFFSET OFLAG_OCRNL
  if !opost || (!onlcr && !ocrnl) then input
  else input.flatMap fun b =>
    if onlcr && b = NL then [CR, NL]
    else if ocrnl && b = CR then [NL]
    else [b]

/-- `b.is_ascii_digit()`. -/
def isAsciiDigit (b : UInt8) : Bool := 0x30 ≤ b && b ≤ 0x39

/-- The parameter of a query, as a `u32` that saturates. -/
def dsrParam (digits : List UInt8) : Nat :=
  digits.foldl (fun param d => min (min (param * 10) (2 ^ 32 - 1) + (d.toNat - 0x30))
    (2 ^ 32 - 1)) 0

/-- `parse_dsr_query_len` on the input from `start` on. -/
def parseDsrQueryLen : List UInt8 → Option Nat
  | 0x1b :: 0x5b :: rest =>
    let body := if rest.head? = some 0x3f then rest.tail else rest
    let digits := body.takeWhile isAsciiDigit
    if digits = [] ∨ (body.drop digits.length).head? ≠ some 0x6e then none
    else if dsrParam digits = 5 ∨ dsrParam digits = 6 then
      some (2 + (rest.length - body.length) + digits.length + 1)
    else none
  | _ => none

/-- The loop of `strip_dsr_queries`. Every round takes a byte, so the length is fuel enough. -/
def stripLoop : Nat → List UInt8 → List UInt8
  | 0, _ => []
  | _ + 1, [] => []
  | fuel + 1, b :: input =>
    match parseDsrQueryLen (b :: input) with
    | some skip => stripLoop fuel ((b :: input).drop skip)
    | none => b :: stripLoop fuel input

/-- `strip_dsr_queries`. -/
def stripDsrQueries (input : List UInt8) : List UInt8 := stripLoop input.length input

/-! ### The device -/

/-- The answer to one `prism_stream_write`: an error of the call, how much of the data fits
the message, and the count that the host returns. -/
structure PrismReply where
  err : Option Err
  copied : Nat
  mr0 : Nat

/-- `prism_stream_write` of data that is not empty. -/
def prismStreamWrite (r : PrismReply) (data : List UInt8) : Except Err Nat :=
  match r.err with
  | some e => .error e
  | none =>
    let copied := min r.copied data.length
    .ok (if 0 < r.mr0 then min r.mr0 copied else copied)

/-- `TtyDevice`, with the answers that the host has ready, and the bytes that it has taken. -/
structure TtyDevice (A : AnsiParser) where
  compat : TtyCompatState A
  polls : List (Except Err Bool)
  reads : List (Except Err (List UInt8))
  writes : List PrismReply
  sent : List UInt8

/-- The loop of `TtyDevice::write`: its result, the answers that are left, and what the host
took. -/
def sendLoop : List PrismReply → List UInt8 →
    Option (Except Err Unit) × List PrismReply × List UInt8
  | rs, [] => (some (.ok ()), rs, [])
  | [], _ :: _ => (none, [], [])
  | r :: rs, b :: data =>
    match prismStreamWrite r (b :: data) with
    | .error e => (some (.error e), rs, [])
    | .ok n =>
      let k := sendLoop rs ((b :: data).drop n)
      (k.1, k.2.1, (b :: data).take n ++ k.2.2)

namespace TtyDevice

/-- `TtyDevice::write`. -/
def write (d : TtyDevice A) (buf : List UInt8) : Option (Except Err Nat) × TtyDevice A :=
  if buf = [] then (some (.ok 0), d)
  else
    let tx := ttyOutputTransform d.compat.termios buf
    let d := { d with compat := processOutput d.compat tx }
    let tx := stripDsrQueries tx
    if tx = [] then (some (.ok buf.length), d)
    else
      let r := sendLoop d.writes tx
      (r.1.map fun e => e.map fun _ => buf.length,
       { d with writes := r.2.1, sent := d.sent ++ r.2.2 })

/-- `feed_input`, and the write of the echo, whose result does not matter. The flag says
whether the write came back. -/
def feedEcho (d : TtyDevice A) (input : List UInt8) : Bool × TtyDevice A :=
  let r := feedInput d.compat input
  let d := { d with compat := r.1 }
  if r.2 = [] then (true, d)
  else
    let k := d.write r.2
    (k.1.isSome, k.2)

/-- The loop of `TtyDevice::read`, on the answers to its calls of `prism_stream_read`. -/
def readLoop (len : Nat) : List (Except Err (List UInt8)) → TtyDevice A →
    Option (Except Err (List UInt8)) × TtyDevice A
  | rs, d =>
    let r := takeReadable d.compat len
    if r.1 ≠ [] then (some (.ok r.1), { d with compat := r.2, reads := rs })
    else match rs with
      | [] => (none, { d with reads := [] })
      | .error e :: rs => (some (.error e), { d with reads := rs })
      | .ok input :: rs =>
        let input := input.take 256
        if input = [] then readLoop len rs d
        else
          let k := d.feedEcho input
          if k.1 then readLoop len rs k.2 else (none, { k.2 with reads := rs })

/-- `TtyDevice::read` into a buffer of `len` bytes. -/
def read (d : TtyDevice A) (len : Nat) : Option (Except Err (List UInt8)) × TtyDevice A :=
  if len = 0 then (some (.ok []), d) else readLoop len d.reads d

/-- `TtyDevice::poll_readable`. -/
def pollReadable (d : TtyDevice A) : Option (Except Err Bool) × TtyDevice A :=
  if canReadNow d.compat then (some (.ok true), d)
  else match d.polls with
    | [] => (none, d)
    | .error e :: ps => (some (.error e), { d with polls := ps })
    | .ok false :: ps => (some (.ok false), { d with polls := ps })
    | .ok true :: ps => match d.reads with
      | [] => (none, { d with polls := ps })
      | .error e :: rs => (some (.error e), { d with polls := ps, reads := rs })
      | .ok input :: rs =>
        let d := { d with polls := ps, reads := rs }
        let input := input.take 256
        if input = [] then (some (.ok false), d)
        else
          let k := d.feedEcho input
          (if k.1 then some (.ok (canReadNow k.2.compat)) else none, k.2)

/-- `TCSETS`, `TCSETSW` and `TCSETSF` of `ioctl_ex`. -/
def setTermios (d : TtyDevice A) (payload : List UInt8) : TtyDevice A :=
  { d with compat := { d.compat with termios := .ofPayload payload } }

end TtyDevice

end Ape
