import Ape.Proofs.TtyEcho

/-!
# `Ape.Proofs.TtyLines`: canonical reads and line records

A canonical terminal is a queue of line records. A newline ends a record, and so does the
end-of-file character, which stays out of it. A read takes bytes of the first record alone.
`LineQueue` is that queue, and `LineQueue.read` is a read on it, with the same chunks of typed
bytes from the host.

The code has no records: `flush_canonical_to_readable` puts the bytes of a line behind those
of the line before. `LineQueue.Holds` relates the two, and the bytes are the records in a row.
`takeReadable_eq_iff` says when a read of the flat bytes is a read of the record.
`canonical_reads_are_line_records` carries it over every run of reads.

The echo of typed bytes can put bytes in the input (`Ape.Proofs.TtyEcho`), and its write can
wait for a host that does not answer. `EchoQuiet` rules both out. It looks at the chunks
alone: the echo does not depend on the bytes that a reader has yet to take
(`feedEcho_withReadable`).
-/

set_option autoImplicit false

namespace Ape

variable {A : AnsiParser}

/-! ### Line records -/

/-- The records that are complete, the line that is being typed, and whether the last typed
byte was a carriage return. -/
structure LineQueue where
  records : List (List UInt8)
  line : List UInt8
  lastWasCr : Bool

namespace LineQueue

/-- A byte that is typed, after its translation. -/
def accept (t : Termios) (q : LineQueue) (b : UInt8) : LineQueue :=
  if b = t.verase then { q with line := q.line.dropLast }
  else if b = t.vkill then { q with line := [] }
  else if b = t.veof then { q with records := q.records ++ [q.line], line := [] }
  else if b = NL then { q with records := q.records ++ [q.line ++ [b]], line := [] }
  else { q with line := q.line ++ [b] }

/-- A byte that is typed. -/
def typed (t : Termios) (q : LineQueue) (raw : UInt8) : LineQueue :=
  if raw = NL ∧ q.lastWasCr then { q with lastWasCr := false }
  else
    let q := { q with lastWasCr := decide (raw = CR) }
    match translate t raw with
    | none => q
    | some b => accept t q b

/-- A chunk of typed bytes. -/
def typedAll (t : Termios) (q : LineQueue) (input : List UInt8) : LineQueue :=
  input.foldl (typed t) q

/-- At most `len` bytes of the first record. What is left of it stays in front. -/
def take (q : LineQueue) (len : Nat) : Option (List UInt8 × LineQueue) :=
  match q.records with
  | [] => none
  | r :: rest =>
    some (r.take len, { q with records := if r.length ≤ len then rest else r.drop len :: rest })

/-- A read waits for chunks of the host until there is a record. -/
def fill (t : Termios) :
    List (Except Err (List UInt8)) → LineQueue → List (Except Err (List UInt8)) × LineQueue
  | [], q => ([], q)
  | .error e :: rs, q => (.error e :: rs, q)
  | .ok input :: rs, q =>
    if q.records = [] then fill t rs (q.typedAll t (input.take 256)) else (.ok input :: rs, q)

/-- A read of `len` bytes: its result, the answers of the host that are left, and the queue. -/
def read (t : Termios) (len : Nat) (rs : List (Except Err (List UInt8))) (q : LineQueue) :
    Option (Except Err (List UInt8)) × List (Except Err (List UInt8)) × LineQueue :=
  let f := fill t rs q
  match f.2.take len with
  | some k => (some (.ok k.1), f.1, k.2)
  | none => match f.1 with
    | .error e :: rs => (some (.error e), rs, f.2)
    | _ => (none, [], f.2)

/-- The results of reads into buffers of these sizes. -/
def readRun (t : Termios) :
    List Nat → List (Except Err (List UInt8)) → LineQueue →
      List (Option (Except Err (List UInt8)))
  | [], _, _ => []
  | len :: lens, rs, q =>
    let r := read t len rs q
    r.1 :: readRun t lens r.2.1 r.2.2

/-- The first record is not empty, and `len` bytes end inside it, or no bytes come behind
it. -/
def Fits (q : LineQueue) (len : Nat) : Prop :=
  ∀ r rest, q.records = r :: rest → r ≠ [] ∧ (len ≤ r.length ∨ rest.flatten = [])

/-- When a read fits the first record. -/
theorem fits_iff {q : LineQueue} {len : Nat} {r : List UInt8} {rest : List (List UInt8)}
    (hrec : q.records = r :: rest) :
    q.Fits len ↔ r ≠ [] ∧ (len ≤ r.length ∨ rest.flatten = []) := by
  constructor
  · intro hfit
    exact hfit r rest hrec
  · intro hfit r' rest' hrec'
    cases hrec.symm.trans hrec'
    exact hfit

instance (q : LineQueue) (len : Nat) : Decidable (q.Fits len) :=
  match h : q.records with
  | [] => .isTrue fun _ _ hrec => nomatch h.symm.trans hrec
  | _ :: _ => decidable_of_iff _ (fits_iff h).symm

/-- Each read fits the first record of the queue that it takes from. -/
def RunFits (t : Termios) : List Nat → List (Except Err (List UInt8)) → LineQueue → Prop
  | [], _, _ => True
  | len :: lens, rs, q =>
    (fill t rs q).2.Fits len ∧
      RunFits t lens (read t len rs q).2.1 (read t len rs q).2.2

instance decidableRunFits (t : Termios) :
    ∀ lens rs (q : LineQueue), Decidable (RunFits t lens rs q)
  | [], _, _ => .isTrue trivial
  | len :: lens, rs, q =>
    have := decidableRunFits t lens (read t len rs q).2.1 (read t len rs q).2.2
    inferInstanceAs (Decidable (_ ∧ _))

/-- The queue behind the flat buffers of the code. -/
structure Holds (q : LineQueue) (s : TtyCompatState A) : Prop where
  readable : s.readableBuf = q.records.flatten
  line : s.canonicalLineBuf = q.line
  lastWasCr : s.lastWasCr = q.lastWasCr

/-- A byte that is taken in goes to the queue as to the terminal. -/
theorem accept_holds {q : LineQueue} {s : TtyCompatState A} (h : q.Holds s)
    (hcanon : s.termios.isIcanon = true) (b : UInt8) :
    (q.accept s.termios b).Holds (acceptByte s b).1 := by
  -- a flushed line is the last record
  have hflush : ∀ line, s.readableBuf ++ line = (q.records ++ [line]).flatten := by
    intro line
    rw [h.readable, List.flatten_append, List.flatten_singleton]
  unfold accept acceptByte
  rw [if_pos hcanon]
  -- erase and kill edit the line; end of file and newline make a record of it
  split
  · refine ⟨h.readable, ?_, h.lastWasCr⟩
    show s.canonicalLineBuf.dropLast = q.line.dropLast
    rw [h.line]
  · split
    · exact ⟨h.readable, rfl, h.lastWasCr⟩
    · split
      · refine ⟨?_, rfl, h.lastWasCr⟩
        show s.readableBuf ++ s.canonicalLineBuf = (q.records ++ [q.line]).flatten
        rw [h.line, hflush]
      · split
        · refine ⟨?_, rfl, h.lastWasCr⟩
          show s.readableBuf ++ (s.canonicalLineBuf ++ [b])
            = (q.records ++ [q.line ++ [b]]).flatten
          rw [h.line, hflush]
        · refine ⟨h.readable, ?_, h.lastWasCr⟩
          show s.canonicalLineBuf ++ [b] = q.line ++ [b]
          rw [h.line]

/-- A typed byte goes to the queue as to the terminal. -/
theorem typed_holds {q : LineQueue} {s : TtyCompatState A} (h : q.Holds s)
    (hcanon : s.termios.isIcanon = true) (raw : UInt8) :
    (q.typed s.termios raw).Holds (feedByte s raw).1 := by
  unfold typed feedByte
  rw [h.lastWasCr]
  split
  · exact ⟨h.readable, h.line, rfl⟩
  · have hcr : Holds { q with lastWasCr := decide (raw = CR) }
        { s with lastWasCr := decide (raw = CR) } := ⟨h.readable, h.line, rfl⟩
    dsimp only
    cases translate s.termios raw with
    | none => exact hcr
    | some b => exact accept_holds hcr hcanon b

/-- Typed bytes go to the queue as to the terminal. -/
theorem typedAll_holds (input : List UInt8) {q : LineQueue} {s : TtyCompatState A}
    (h : q.Holds s) (hcanon : s.termios.isIcanon = true) :
    (q.typedAll s.termios input).Holds (feedInput s input).1 := by
  induction input generalizing q s with
  | nil => exact h
  | cons raw input ih =>
    have hnext := ih (typed_holds h hcanon raw) (by rw [feedByte_termios]; exact hcanon)
    rw [feedByte_termios] at hnext
    exact hnext

/-- With a record there, a read does not wait. -/
theorem fill_of_record (t : Termios) (rs : List (Except Err (List UInt8))) {q : LineQueue}
    (h : q.records ≠ []) : fill t rs q = (rs, q) := by
  match rs with
  | [] => rfl
  | .error e :: rs => rfl
  | .ok input :: rs => exact if_neg h

end LineQueue

/-! ### One read of the flat buffer -/

/-- With lines, there is something to read when a line is complete. -/
theorem canReadNow_canonical {s : TtyCompatState A} (hcanon : s.termios.isIcanon = true) :
    canReadNow s = decide (s.readableBuf ≠ []) := by
  unfold canReadNow
  rw [if_pos hcanon]
  by_cases hnil : s.readableBuf = []
  · rw [if_pos hnil, hnil]
    rfl
  · rw [if_neg hnil, decide_eq_true hnil]

/-- With lines, a read takes the front of the complete lines. -/
theorem takeReadable_canonical {s : TtyCompatState A} (hcanon : s.termios.isIcanon = true)
    {len : Nat} (hlen : 0 < len) :
    takeReadable s len
      = (s.readableBuf.take len, { s with readableBuf := s.readableBuf.drop len }) := by
  unfold takeReadable
  rw [canReadNow_canonical hcanon]
  by_cases hnil : s.readableBuf = []
  · rw [if_pos (Or.inr (by simp [hnil])), hnil, List.take_nil, List.drop_nil, ← hnil]
  · rw [if_neg (by simp [hnil]; omega)]

/-- The code gives a reader the bytes that the record queue gives exactly when the read fits
the first record. -/
theorem takeReadable_eq_iff {q : LineQueue} {s : TtyCompatState A} (h : q.Holds s)
    (hcanon : s.termios.isIcanon = true) {len : Nat} (hlen : 0 < len) {r : List UInt8}
    {rest : List (List UInt8)} (hrec : q.records = r :: rest) :
    ((takeReadable s len).1 ≠ [] ∧ (takeReadable s len).1 = r.take len) ↔ q.Fits len := by
  -- the read takes the first record, and what there is room for of the next ones
  have hflat : s.readableBuf.take len = r.take len ++ rest.flatten.take (len - r.length) := by
    rw [h.readable, hrec, List.flatten_cons, List.take_append]
  rw [takeReadable_canonical hcanon hlen, LineQueue.fits_iff hrec, hflat, List.append_right_eq_self,
    List.take_eq_nil_iff]
  constructor
  · rintro ⟨hne, hend⟩
    refine ⟨?_, ?_⟩
    · rintro rfl
      apply hne
      rw [List.take_nil, List.nil_append, List.take_eq_nil_iff]
      exact hend
    · rcases hend with hle | hnil
      · exact Or.inl (Nat.le_of_sub_eq_zero hle)
      · exact Or.inr hnil
  · rintro ⟨hne, hend⟩
    refine ⟨?_, hend.imp_left Nat.sub_eq_zero_of_le⟩
    intro hnil
    rcases List.take_eq_nil_iff.mp (List.append_eq_nil_iff.mp hnil).1 with hzero | hnil
    · omega
    · exact hne hnil

/-- What a read that fits leaves in the two queues. -/
theorem take_holds {q : LineQueue} {s : TtyCompatState A} (h : q.Holds s)
    (hcanon : s.termios.isIcanon = true) {len : Nat} (hlen : 0 < len) (hfit : q.Fits len)
    {bytes : List UInt8} {q' : LineQueue} (htake : q.take len = some (bytes, q')) :
    bytes ≠ [] ∧ (takeReadable s len).1 = bytes ∧ q'.Holds (takeReadable s len).2 := by
  unfold LineQueue.take at htake
  split at htake
  · cases htake
  · rename_i r rest hrec
    cases htake
    obtain ⟨hne, heq⟩ := (takeReadable_eq_iff h hcanon hlen hrec).mpr hfit
    refine ⟨heq ▸ hne, heq, ?_⟩
    rw [takeReadable_canonical hcanon hlen]
    refine ⟨?_, h.line, h.lastWasCr⟩
    show s.readableBuf.drop len = List.flatten (if r.length ≤ len then rest else r.drop len :: rest)
    rw [h.readable, hrec, List.flatten_cons, List.drop_append]
    split
    · rename_i hle
      rw [List.drop_eq_nil_of_le hle, List.nil_append]
      -- a buffer that is longer than the record finds nothing behind it
      rcases (hfit r rest hrec).2 with hge | hnil
      · rw [Nat.le_antisymm hge hle, Nat.sub_self, List.drop_zero]
      · rw [hnil, List.drop_nil]
    · rename_i hlt
      rw [Nat.sub_eq_zero_of_le (Nat.le_of_not_le hlt), List.drop_zero, List.flatten_cons]

/-! ### The echo and the readable bytes -/

/-- The states differ in the readable bytes at most. -/
def Alike (s s' : TtyCompatState A) : Prop := ∃ bytes, s' = { s with readableBuf := bytes }

namespace Alike

/-- Two branches that are alike are alike together. -/
theorem ite {s s' t t' : TtyCompatState A} {c : Prop} [Decidable c] (hs : Alike s s')
    (ht : Alike t t') : Alike (if c then s else t) (if c then s' else t') := by
  split
  · exact hs
  · exact ht

/-- The readable bytes do not matter for what a callback does to the rest. -/
theorem perform {s s' : TtyCompatState A} (h : Alike s s') (p : Perform) :
    Alike (perform s p) (perform s' p) := by
  obtain ⟨bytes, rfl⟩ := h
  -- the readable bytes are not looked at
  have hself : ∀ {t : TtyCompatState A}, Alike t { t with readableBuf := bytes } := ⟨bytes, rfl⟩
  have hrespond : ∀ {t t' : TtyCompatState A} (answer : List UInt8), Alike t t' →
      Alike (respond t answer) (respond t' answer) := by
    rintro t t' answer ⟨bytes', rfl⟩
    exact ⟨bytes' ++ answer, rfl⟩
  cases p with
  | print c => exact .ite ⟨bytes, rfl⟩ ⟨bytes, rfl⟩
  | execute byte =>
    exact .ite ⟨bytes, rfl⟩ <| .ite ⟨bytes, rfl⟩ <| .ite ⟨bytes, rfl⟩ <|
      .ite ⟨bytes, rfl⟩ ⟨bytes, rfl⟩
  | csiDispatch params intermediates ignore action =>
    apply hrespond
    exact .ite ⟨bytes, rfl⟩ <| .ite ⟨bytes, rfl⟩ <| .ite ⟨bytes, rfl⟩ <|
      .ite ⟨bytes, rfl⟩ <| .ite ⟨bytes, rfl⟩ <| .ite ⟨bytes, rfl⟩ <| .ite ⟨bytes, rfl⟩ <|
      .ite ⟨bytes, rfl⟩ <| .ite ⟨bytes, rfl⟩ <| .ite ⟨bytes, rfl⟩ <|
      .ite ⟨bytes, rfl⟩ ⟨bytes, rfl⟩
  | escDispatch intermediates ignore byte =>
    apply hrespond
    exact .ite ⟨bytes, rfl⟩ <| .ite ⟨bytes, rfl⟩ <| .ite ⟨bytes, rfl⟩ <|
      .ite ⟨bytes, rfl⟩ <| .ite ⟨bytes, rfl⟩ <| .ite ⟨bytes, rfl⟩ ⟨bytes, rfl⟩
  | hook | put | unhook | oscDispatch => exact ⟨bytes, rfl⟩

/-- Actions of the parser leave alike states alike. -/
theorem performs (ps : List Perform) {s s' : TtyCompatState A} (h : Alike s s') :
    Alike (ps.foldl Ape.perform s) (ps.foldl Ape.perform s') := by
  induction ps generalizing s s' with
  | nil => exact h
  | cons p ps ih => exact ih (h.perform p)

/-- Output leaves alike states alike, and the parser in one state. -/
theorem processLoop (output : List UInt8) (p : A.State) {s s' : TtyCompatState A}
    (h : Alike s s') :
    (processLoop p s output).1 = (processLoop p s' output).1 ∧
      Alike (processLoop p s output).2 (processLoop p s' output).2 := by
  induction output generalizing p s s' with
  | nil => exact ⟨rfl, h⟩
  | cons b output ih => exact ih _ (h.performs _)

/-- Output leaves alike states alike. -/
theorem processOutput {s s' : TtyCompatState A} (h : Alike s s') (output : List UInt8) :
    Alike (processOutput s output) (processOutput s' output) := by
  obtain ⟨bytes, rfl⟩ := h
  have hstart : Alike { s with ansiParser := A.new }
      { s with ansiParser := A.new, readableBuf := bytes } := ⟨bytes, rfl⟩
  obtain ⟨hparser, bytes', hstate⟩ := hstart.processLoop output s.ansiParser
  refine ⟨bytes', ?_⟩
  unfold Ape.processOutput
  dsimp only
  rw [hstate, ← hparser]

/-- A byte that is taken in leaves alike states alike, with one echo. -/
theorem acceptByte {s s' : TtyCompatState A} (h : Alike s s') (b : UInt8) :
    Alike (acceptByte s b).1 (acceptByte s' b).1 ∧
      (Ape.acceptByte s b).2 = (Ape.acceptByte s' b).2 := by
  obtain ⟨bytes, rfl⟩ := h
  have hite : ∀ {c : Prop} [Decidable c] {r r' k k' : TtyCompatState A × List UInt8},
      (Alike r.1 r'.1 ∧ r.2 = r'.2) → (Alike k.1 k'.1 ∧ k.2 = k'.2) →
      Alike (if c then r else k).1 (if c then r' else k').1 ∧
        (if c then r else k).2 = (if c then r' else k').2 := by
    intro c _ r r' k k' hr hk
    split
    · exact hr
    · exact hk
  exact hite (hite ⟨⟨bytes, rfl⟩, rfl⟩ <| hite ⟨⟨bytes, rfl⟩, rfl⟩ <|
    hite ⟨⟨_, rfl⟩, rfl⟩ <| hite ⟨⟨_, rfl⟩, rfl⟩ ⟨⟨bytes, rfl⟩, rfl⟩) ⟨⟨_, rfl⟩, rfl⟩

/-- A typed byte leaves alike states alike, with one echo. -/
theorem feedByte {s s' : TtyCompatState A} (h : Alike s s') (raw : UInt8) :
    Alike (feedByte s raw).1 (feedByte s' raw).1 ∧
      (Ape.feedByte s raw).2 = (Ape.feedByte s' raw).2 := by
  obtain ⟨bytes, rfl⟩ := h
  unfold Ape.feedByte
  dsimp only
  split
  · exact ⟨⟨bytes, rfl⟩, rfl⟩
  · cases translate s.termios raw with
    | none => exact ⟨⟨bytes, rfl⟩, rfl⟩
    | some b =>
      have hcr : Alike { s with lastWasCr := decide (raw = CR) }
          { s with lastWasCr := decide (raw = CR), readableBuf := bytes } := ⟨bytes, rfl⟩
      obtain ⟨halike, hecho⟩ := hcr.acceptByte b
      refine ⟨halike, ?_⟩
      dsimp only
      rw [hecho]

/-- Typed bytes leave alike states alike, with one echo. -/
theorem feedInput (input : List UInt8) {s s' : TtyCompatState A} (h : Alike s s') :
    Alike (feedInput s input).1 (feedInput s' input).1 ∧
      (Ape.feedInput s input).2 = (Ape.feedInput s' input).2 := by
  induction input generalizing s s' with
  | nil => exact ⟨h, rfl⟩
  | cons raw input ih =>
    obtain ⟨halike, hecho⟩ := h.feedByte raw
    obtain ⟨halike', hecho'⟩ := ih halike
    exact ⟨halike', congrArg₂ (· ++ ·) hecho hecho'⟩

/-- The echo asks the same of the cursor tracker. -/
theorem echoAsks {s s' : TtyCompatState A} (h : Alike s s') (input : List UInt8) :
    EchoAsks s input ↔ EchoAsks s' input := by
  obtain ⟨⟨bytes, hstate⟩, hecho⟩ := h.feedInput input
  obtain ⟨bytes', rfl⟩ := h
  unfold EchoAsks
  rw [hstate, hecho]

end Alike

/-- The devices differ in the readable bytes at most, as far as an echo goes. -/
structure TtyDevice.Alike (d d' : TtyDevice A) : Prop where
  compat : Ape.Alike d.compat d'.compat
  writes : d.writes = d'.writes

/-- The readable bytes do not matter for an echo and for the write of it. -/
theorem TtyDevice.Alike.feedEcho {d d' : TtyDevice A} (h : d.Alike d') (input : List UInt8) :
    (d.feedEcho input).1 = (d'.feedEcho input).1 ∧
      (d.feedEcho input).2.Alike (d'.feedEcho input).2 := by
  obtain ⟨halike, hecho⟩ := h.compat.feedInput input
  have hout := halike.processOutput (ttyOutputTransform d.compat.termios
    (feedInput d.compat input).2)
  have htermios : d.compat.termios = d'.compat.termios := by
    obtain ⟨bytes, hstate⟩ := h.compat
    rw [hstate]
  unfold TtyDevice.feedEcho TtyDevice.write
  dsimp only
  rw [feedInput_termios, feedInput_termios, ← hecho, ← htermios, ← h.writes]
  split
  · exact ⟨rfl, halike, rfl⟩
  · split
    · exact ⟨rfl, hout, rfl⟩
    · exact ⟨rfl, hout, rfl⟩

/-- The host takes the echo of every chunk that it has ready, and no echo asks the cursor
tracker for anything. -/
def EchoQuiet : List (Except Err (List UInt8)) → TtyDevice A → Prop
  | [], _ => True
  | .error _ :: rs, d => EchoQuiet rs d
  | .ok input :: rs, d =>
    (d.feedEcho (input.take 256)).1 = true ∧ ¬ EchoAsks d.compat (input.take 256) ∧
      EchoQuiet rs (d.feedEcho (input.take 256)).2

/-- An echo without queries stays one in an alike state. -/
theorem EchoQuiet.alike (rs : List (Except Err (List UInt8))) {d d' : TtyDevice A}
    (h : d.Alike d') (hq : EchoQuiet rs d) : EchoQuiet rs d' := by
  induction rs generalizing d d' with
  | nil => trivial
  | cons r rs ih =>
    cases r with
    | error e => exact ih h hq
    | ok input =>
      obtain ⟨hback, hasks, hrest⟩ := hq
      obtain ⟨hflag, hnext⟩ := h.feedEcho (input.take 256)
      refine ⟨hflag ▸ hback, ?_, ih hnext hrest⟩
      intro ha
      exact hasks ((h.compat.echoAsks _).mpr ha)

/-! ### Runs of reads -/

/-- The results of reads into buffers of these sizes, one after the other. -/
def TtyDevice.readRun (d : TtyDevice A) : List Nat → List (Option (Except Err (List UInt8)))
  | [] => []
  | len :: lens => (d.read len).1 :: (d.read len).2.readRun lens

/-- The device and the queue, between two reads. -/
structure Reading (t : Termios) (rs : List (Except Err (List UInt8))) (q : LineQueue)
    (d : TtyDevice A) : Prop where
  holds : q.Holds d.compat
  termios : d.compat.termios = t
  quiet : EchoQuiet rs d

/-- Without a record there is nothing to take. -/
theorem Reading.takes_nothing {t : Termios} {rs : List (Except Err (List UInt8))} {q : LineQueue}
    {d : TtyDevice A} (h : Reading t rs q d) (hcanon : t.isIcanon = true) {len : Nat}
    (hlen : 0 < len) (hrec : q.records = []) : (takeReadable d.compat len).1 = [] := by
  rw [takeReadable_canonical (h.termios.symm ▸ hcanon) hlen, h.holds.readable, hrec]
  exact List.take_nil

/-- A quiet chunk is typed into the queue. -/
theorem Reading.feedEcho {t : Termios} {input : List UInt8}
    {rs : List (Except Err (List UInt8))} {q : LineQueue} {d : TtyDevice A}
    (h : Reading t (.ok input :: rs) q d) (hcanon : t.isIcanon = true) :
    (d.feedEcho (input.take 256)).1 = true ∧
      Reading t rs (q.typedAll t (input.take 256)) (d.feedEcho (input.take 256)).2 := by
  obtain ⟨hholds, rfl, hback, hasks, hrest⟩ := h
  refine ⟨hback, ?_, ?_, hrest⟩
  · rw [feedEcho_compat]
    obtain ⟨answer, ha, hnil⟩ := echoStep_answered d.compat (input.take 256)
    have hfed := LineQueue.typedAll_holds (input.take 256) hholds hcanon
    refine ⟨?_, ha.line.trans hfed.line, ha.lastWasCr.trans hfed.lastWasCr⟩
    rw [ha.readable, hnil.mpr hasks, List.append_nil, hfed.readable]
  · rw [feedEcho_compat, echoStep_termios]

/-- A read returns what is there. -/
theorem readLoop_ready {len : Nat} (rs : List (Except Err (List UInt8))) {d : TtyDevice A}
    (h : (takeReadable d.compat len).1 ≠ []) :
    TtyDevice.readLoop len rs d = (some (.ok (takeReadable d.compat len).1),
      { d with compat := (takeReadable d.compat len).2, reads := rs }) := by
  rw [TtyDevice.readLoop.eq_def]
  exact if_pos h

/-- No input has no echo. -/
theorem feedEcho_nil (d : TtyDevice A) : d.feedEcho [] = (true, d) := rfl

/-- With no bytes to take, a read asks the host for a chunk. -/
theorem readLoop_wait {len : Nat} (input : List UInt8) (rs : List (Except Err (List UInt8)))
    {d : TtyDevice A} (h : (takeReadable d.compat len).1 = []) :
    TtyDevice.readLoop len (.ok input :: rs) d
      = if (d.feedEcho (input.take 256)).1 then
          TtyDevice.readLoop len rs (d.feedEcho (input.take 256)).2
        else (none, { (d.feedEcho (input.take 256)).2 with reads := rs }) := by
  rw [TtyDevice.readLoop.eq_def]
  dsimp only
  rw [if_neg (not_not.mpr h)]
  split
  · rename_i hnil
    rw [hnil, feedEcho_nil]
    rfl
  · rfl

/-- With no bytes and no chunk, a read waits on. -/
theorem readLoop_stuck {len : Nat} {d : TtyDevice A} (h : (takeReadable d.compat len).1 = []) :
    TtyDevice.readLoop len [] d = (none, { d with reads := [] }) := by
  rw [TtyDevice.readLoop.eq_def]
  exact if_neg (not_not.mpr h)

/-- A read passes on the error of the host. -/
theorem readLoop_error {len : Nat} (e : Err) (rs : List (Except Err (List UInt8)))
    {d : TtyDevice A} (h : (takeReadable d.compat len).1 = []) :
    TtyDevice.readLoop len (.error e :: rs) d = (some (.error e), { d with reads := rs }) := by
  rw [TtyDevice.readLoop.eq_def]
  exact if_neg (not_not.mpr h)

/-- A read of the device did what the read of the queue did. -/
structure SameRead (t : Termios)
    (r : Option (Except Err (List UInt8)) × TtyDevice A)
    (k : Option (Except Err (List UInt8)) × List (Except Err (List UInt8)) × LineQueue) :
    Prop where
  result : r.1 = k.1
  reads : r.2.reads = k.2.1
  reading : Reading t k.2.1 k.2.2 r.2

/-- With a record there, a read that fits takes bytes of it. -/
theorem readLoop_record {t : Termios} (hcanon : t.isIcanon = true) {len : Nat} (hlen : 0 < len)
    {rs : List (Except Err (List UInt8))} {q : LineQueue} {d : TtyDevice A}
    (h : Reading t rs q d) (hfit : (LineQueue.fill t rs q).2.Fits len) (hrec : q.records ≠ []) :
    SameRead t (TtyDevice.readLoop len rs d) (LineQueue.read t len rs q) := by
  have hcanon' : d.compat.termios.isIcanon = true := h.termios.symm ▸ hcanon
  rw [LineQueue.fill_of_record t rs hrec] at hfit
  -- there is a record, so the abstract read takes one
  obtain ⟨⟨bytes, q'⟩, htake⟩ : ∃ k, q.take len = some k := by
    obtain ⟨r, rest, hcons⟩ := List.exists_cons_of_ne_nil hrec
    unfold LineQueue.take
    rw [hcons]
    exact ⟨_, rfl⟩
  obtain ⟨hne, hbytes, hnext⟩ := take_holds h.holds hcanon' hlen hfit htake
  have hread : LineQueue.read t len rs q = (some (.ok bytes), rs, q') := by
    unfold LineQueue.read
    rw [LineQueue.fill_of_record t rs hrec]
    dsimp only
    rw [htake]
  rw [hread, readLoop_ready rs (hbytes ▸ hne)]
  refine ⟨by rw [hbytes], rfl, hnext, ?_, ?_⟩
  · rw [takeReadable_canonical hcanon' hlen]
    exact h.termios
  · rw [takeReadable_canonical hcanon' hlen]
    exact EchoQuiet.alike rs ⟨⟨_, rfl⟩, rfl⟩ h.quiet

/-- A read of the device is a read of the queue, when it fits the record. The induction is on
the chunks that the host has ready. -/
theorem readLoop_holds {t : Termios} (hcanon : t.isIcanon = true) {len : Nat} (hlen : 0 < len)
    (rs : List (Except Err (List UInt8))) {q : LineQueue} {d : TtyDevice A}
    (h : Reading t rs q d) (hfit : (LineQueue.fill t rs q).2.Fits len) :
    SameRead t (TtyDevice.readLoop len rs d) (LineQueue.read t len rs q) := by
  induction rs generalizing q d with
  -- without input the read gives a record or nothing
  | nil =>
    by_cases hrec : q.records = []
    · rw [readLoop_stuck (h.takes_nothing hcanon hlen hrec)]
      have hread : LineQueue.read t len [] q = (none, [], q) := by
        unfold LineQueue.read LineQueue.fill LineQueue.take
        dsimp only
        rw [hrec]
      rw [hread]
      exact ⟨rfl, rfl, h.holds, h.termios, trivial⟩
    · exact readLoop_record hcanon hlen h hfit hrec
  | cons r rs ih =>
    -- without a record the device reads the next input
    by_cases hrec : q.records = []
    · cases r with
      | error e =>
        rw [readLoop_error e rs (h.takes_nothing hcanon hlen hrec)]
        have hread : LineQueue.read t len (.error e :: rs) q = (some (.error e), rs, q) := by
          unfold LineQueue.read LineQueue.fill LineQueue.take
          dsimp only
          rw [hrec]
        rw [hread]
        exact ⟨rfl, rfl, h.holds, h.termios, EchoQuiet.alike rs ⟨⟨_, rfl⟩, rfl⟩ h.quiet⟩
      | ok input =>
        have hfill : LineQueue.fill t (.ok input :: rs) q
            = LineQueue.fill t rs (q.typedAll t (input.take 256)) := if_pos hrec
        have hread : LineQueue.read t len (.ok input :: rs) q
            = LineQueue.read t len rs (q.typedAll t (input.take 256)) := by
          unfold LineQueue.read
          rw [hfill]
        obtain ⟨hback, hnext⟩ := h.feedEcho hcanon
        rw [readLoop_wait _ _ (h.takes_nothing hcanon hlen hrec), if_pos hback, hread]
        rw [hfill] at hfit
        exact ih hnext hfit
    · exact readLoop_record hcanon hlen h hfit hrec

/-- Canonical reads are reads of line records. Take a terminal with nothing to read, reads
into buffers that are not empty, and a quiet echo. Where every read fits the record that it
takes from, the results are those of the record queue. -/
theorem canonical_reads_are_line_records (d : TtyDevice A) (lens : List Nat)
    (hcanon : d.compat.termios.isIcanon = true) (hempty : d.compat.readableBuf = [])
    (hlens : ∀ len ∈ lens, 0 < len) (hquiet : EchoQuiet d.reads d)
    (hfits : LineQueue.RunFits d.compat.termios lens d.reads
      ⟨[], d.compat.canonicalLineBuf, d.compat.lastWasCr⟩) :
    d.readRun lens = LineQueue.readRun d.compat.termios lens d.reads
      ⟨[], d.compat.canonicalLineBuf, d.compat.lastWasCr⟩ := by
  -- the reads one after the other, with the queue that belongs to the device
  have hrun : ∀ lens : List Nat, (∀ len ∈ lens, 0 < len) → ∀ (d' : TtyDevice A) (q : LineQueue),
      Reading d.compat.termios d'.reads q d' →
      LineQueue.RunFits d.compat.termios lens d'.reads q →
      d'.readRun lens = LineQueue.readRun d.compat.termios lens d'.reads q := by
    intro lens hlens
    induction lens with
    | nil => intro d' q h hfits; rfl
    | cons len lens ih =>
      intro d' q h hfits
      rw [List.forall_mem_cons] at hlens
      have hread : d'.read len = TtyDevice.readLoop len d'.reads d' :=
        if_neg (Nat.pos_iff_ne_zero.mp hlens.1)
      obtain ⟨hresult, hreads, hnext⟩ := readLoop_holds hcanon hlens.1 _ h hfits.1
      unfold TtyDevice.readRun LineQueue.readRun
      dsimp only
      rw [hread, hresult, ← hreads]
      rw [← hreads] at hnext
      have hrest := hfits.2
      rw [← hreads] at hrest
      rw [ih hlens.2 _ _ hnext hrest]
  exact hrun lens hlens d _ ⟨⟨hempty, rfl, rfl⟩, rfl, hquiet⟩ hfits

/-- A terminal with the default settings, a host that has `input` ready, and room for an
echo. -/
def typedTty (input : List UInt8) : TtyDevice sampleParser :=
  { sampleTty with
    reads := [.ok input]
    writes := [⟨none, 16, 0⟩] }

/-- The line `ab` and its newline, read two bytes at a time. -/
theorem canonical_reads_are_line_records_sample :
    (typedTty [0x61, 0x62, NL]).readRun [2, 2, 2]
      = LineQueue.readRun .default [2, 2, 2] [.ok [0x61, 0x62, NL]] ⟨[], [], false⟩ :=
  canonical_reads_are_line_records (typedTty [0x61, 0x62, NL]) [2, 2, 2] (by decide) rfl
    (by decide) ⟨rfl, by unfold EchoAsks; decide +kernel, trivial⟩ (by decide +kernel)

/-- An end of file on an empty line is lost: the read waits on. -/
example : (typedTty [0x04]).readRun [8] = [none] ∧
    LineQueue.readRun .default [8] [.ok [0x04]] ⟨[], [], false⟩ = [some (.ok [])] := by
  decide +kernel

/-- One read returns two lines. -/
theorem one_read_returns_two_lines :
    ¬ ∀ (A : AnsiParser) (d : TtyDevice A) (lens : List Nat),
      d.compat = .default A → (∀ len ∈ lens, 0 < len) →
      d.readRun lens = LineQueue.readRun .default lens d.reads ⟨[], [], false⟩ := by
  intro h
  have hlines := h sampleParser (typedTty [0x61, NL, 0x62, NL]) [8] rfl (by decide)
  revert hlines
  decide +kernel

end Ape
