import Ape.Proofs.Pipes

/-!
# `Ape.Proofs.PipePaths`: paths that name the ends of a pipe

`do_pipe2` prints the number of a pipe and the letter of an end as a path, and the pipe filesystem
parses the path in another process. `pipe_paths_exact` says which paths name which end, and that a
printed path names the end that it was printed for.

`pipe2_connects` follows the three calls of a `pipe2` among the calls of other clients. The calls in
between may do what they want, as long as they do not name the number that was just given out.
-/

set_option autoImplicit false

namespace Ape

open Ape.Lib

/-! ### Numbers -/

/-- A word in decimal digits, with a `+` or without. -/
structure PrintsUsize (s : List Char) (n : Nat) : Prop where
  digits : ∃ sign digits, s = sign ++ digits ∧ (sign = [] ∨ sign = ['+']) ∧ digits ≠ [] ∧
    (∀ c ∈ digits, c.isDigit) ∧ Nat.ofDigitChars 10 digits 0 = n
  fits : n < usizeMod

/-- The parser takes off one sign and reads the digits. -/
theorem parseUsize_digits {sign digits : List Char} (hsign : sign = [] ∨ sign = ['+'])
    (hne : digits ≠ []) (hdigits : ∀ c ∈ digits, c.isDigit) :
    parseUsize (sign ++ digits) =
      if Nat.ofDigitChars 10 digits 0 < usizeMod then some (Nat.ofDigitChars 10 digits 0)
      else none := by
  have hall : digits.all Char.isDigit = true := List.all_eq_true.mpr hdigits
  have hno : ¬ (digits = [] ∨ ¬ digits.all Char.isDigit = true) := by
    rintro (h | h)
    · exact hne h
    · exact h hall
  -- without a sign the first character is a digit, and so is every further one behind a plus
  rcases hsign with rfl | rfl
  · cases digits with
    | nil => exact absurd rfl hne
    | cons c cs =>
      have hplus : c ≠ '+' := by
        rintro rfl
        exact absurd (hdigits '+' List.mem_cons_self) (by decide)
      unfold parseUsize
      rw [List.nil_append]
      split
      · rename_i heq
        exact absurd (List.cons.inj heq).1 hplus
      · exact if_neg hno
  · exact if_neg hno

/-- A number is parsed when it prints one that fits in the word. -/
theorem parseUsize_iff {s : List Char} {n : Nat} : parseUsize s = some n ↔ PrintsUsize s n := by
  constructor
  · intro h
    -- the digits are what is left when a sign is taken off
    have hsplit : ∃ sign digits, s = sign ++ digits ∧ (sign = [] ∨ sign = ['+']) ∧
        (if digits = [] ∨ ¬ digits.all Char.isDigit then none
          else if Nat.ofDigitChars 10 digits 0 < usizeMod then
            some (Nat.ofDigitChars 10 digits 0) else none) = some n := by
      unfold parseUsize at h
      split at h
      · rename_i rest
        exact ⟨['+'], rest, rfl, .inr rfl, h⟩
      · exact ⟨[], s, rfl, .inl rfl, h⟩
    obtain ⟨sign, digits, hs, hsign, hif⟩ := hsplit
    split at hif
    · cases hif
    rename_i hno
    split at hif
    · rename_i hfits
      cases hif
      have hall : digits.all Char.isDigit = true := by
        by_contra hall
        exact hno (.inr hall)
      exact ⟨⟨sign, digits, hs, hsign, fun h => hno (.inl h), List.all_eq_true.mp hall, rfl⟩, hfits⟩
    · cases hif
  · rintro ⟨⟨sign, digits, rfl, hsign, hne, hdigits, rfl⟩, hfits⟩
    rw [parseUsize_digits hsign hne hdigits, if_pos hfits]

/-- A printed word is one. -/
theorem printsUsize_toDigits {n : Nat} (h : n < usizeMod) : PrintsUsize (Nat.toDigits 10 n) n where
  digits := ⟨[], Nat.toDigits 10 n, rfl, .inl rfl, Nat.toDigits_ne_nil,
    fun _ hc => Nat.isDigit_of_mem_toDigits (by decide) (by decide) hc,
    Nat.ofDigitChars_ten_toDigits⟩
  fits := h

/-- No slash is in a number. -/
theorem PrintsUsize.no_slash {s : List Char} {n : Nat} (h : PrintsUsize s n) : '/' ∉ s := by
  obtain ⟨sign, digits, rfl, hsign, -, hdigits, -⟩ := h.digits
  intro hmem
  rcases List.mem_append.mp hmem with hmem | hmem
  · rcases hsign with rfl | rfl
    · cases hmem
    · exact absurd hmem (by decide)
  · exact absurd (hdigits '/' hmem) (by decide)

/-! ### Paths -/

/-- The names of an end. -/
def PipeEnd.names : PipeEnd → List (List Char)
  | .read => ["r".toList, "read".toList]
  | .write => ["w".toList, "write".toList]

/-- An end is parsed when it is one of its names. -/
theorem parsePipeEnd_iff {s : List Char} {e : PipeEnd} : parsePipeEnd s = some e ↔ s ∈ e.names := by
  have hdistinct : ∀ a ∈ PipeEnd.read.names, a ∉ PipeEnd.write.names := by decide
  have hread : s = "r".toList ∨ s = "read".toList ↔ s ∈ PipeEnd.read.names := by
    simp [PipeEnd.names]
  have hwrite : s = "w".toList ∨ s = "write".toList ↔ s ∈ PipeEnd.write.names := by
    simp [PipeEnd.names]
  unfold parsePipeEnd
  -- a name is one of the read end, of the write end, or of neither
  by_cases hr : s ∈ PipeEnd.read.names
  · rw [if_pos (hread.mpr hr)]
    cases e with
    | read => exact iff_of_true rfl hr
    | write => exact iff_of_false (fun h => by cases h) (hdistinct s hr)
  · rw [if_neg (mt hread.mp hr)]
    by_cases hw : s ∈ PipeEnd.write.names
    · rw [if_pos (hwrite.mpr hw)]
      cases e with
      | read => exact iff_of_false (fun h => by cases h) hr
      | write => exact iff_of_true rfl hw
    · rw [if_neg (mt hwrite.mp hw)]
      cases e with
      | read => exact iff_of_false (fun h => by cases h) hr
      | write => exact iff_of_false (fun h => by cases h) hw

/-- No slash is in a name. -/
theorem PipeEnd.no_slash {s : List Char} {e : PipeEnd} (h : s ∈ e.names) : '/' ∉ s := by
  have hall : ∀ e : PipeEnd, ∀ s ∈ e.names, '/' ∉ s := by
    intro e
    cases e <;> decide
  exact hall e s h

/-- A path that names an end: slashes, the number, a slash and a name. -/
def NamesEnd (path : List Char) (h : PipeHandle) : Prop :=
  ∃ slashes idPart endPart, path = List.replicate slashes '/' ++ (idPart ++ '/' :: endPart) ∧
    PrintsUsize idPart h.pipeId ∧ endPart ∈ h.pipeEnd.names

/-- What is left of a path without its leading slashes. -/
theorem dropSlashes (slashes : Nat) {rest : List Char} (h : rest.head? ≠ some '/') :
    (List.replicate slashes '/' ++ rest).dropWhile (· = '/') = rest := by
  induction slashes with
  | zero =>
    cases rest with
    | nil => rfl
    | cons c cs =>
      have hc : c ≠ '/' := fun hc => h (by rw [hc]; rfl)
      exact List.dropWhile_cons_of_neg (by simpa using hc)
  | succ slashes ih =>
    rw [List.replicate_succ, List.cons_append, List.dropWhile_cons_of_pos (by decide), ih]

/-- The parser accepts the paths that name an end, and finds the end. -/
theorem parsePipePath_iff {path : List Char} {h : PipeHandle} :
    parsePipePath path = some h ↔ NamesEnd path h := by
  constructor
  · intro hparse
    unfold parsePipePath at hparse
    split at hparse
    · rename_i idPart endPart hsplit
      obtain ⟨pipeId, hid, hparse⟩ := Option.bind_eq_some_iff.mp hparse
      obtain ⟨e, he, hparse⟩ := Option.bind_eq_some_iff.mp hparse
      cases hparse
      have hslashes : path.takeWhile (· = '/') =
          List.replicate (path.takeWhile (· = '/')).length '/' := by
        refine List.eq_replicate_iff.mpr ⟨rfl, ?_⟩
        intro c hc
        simpa using List.all_eq_true.mp List.all_takeWhile c hc
      -- the two parts joined by the slash are the rest of the path
      have hrest : path.dropWhile (· = '/') = idPart ++ '/' :: endPart := by
        have hjoin : ['/'].intercalate ((path.dropWhile (· = '/')).splitOn '/') =
            path.dropWhile (· = '/') := List.intercalate_splitOn '/'
        rw [hsplit] at hjoin
        rw [← hjoin]
        simp [List.intercalate]
      refine ⟨(path.takeWhile (· = '/')).length, idPart, endPart, ?_, parseUsize_iff.mp hid,
        parsePipeEnd_iff.mp he⟩
      rw [← hslashes, ← hrest, List.takeWhile_append_dropWhile]
    · cases hparse
  · rintro ⟨slashes, idPart, endPart, rfl, hid, hend⟩
    -- the first part is a number, so it starts with no slash and has none
    have hhead : (idPart ++ '/' :: endPart).head? ≠ some '/' := by
      cases idPart with
      | nil =>
        obtain ⟨sign, digits, hs, -, hne, -⟩ := hid.digits
        exact absurd (List.append_eq_nil_iff.mp hs.symm).2 hne
      | cons c cs =>
        intro hc
        exact hid.no_slash (by rw [Option.some.inj hc]; exact List.mem_cons_self)
    have hsplit : (idPart ++ '/' :: endPart).splitOn '/' = [idPart, endPart] := by
      rw [List.splitOn_append_cons_self_of_not_mem hid.no_slash,
        List.splitOn_eq_singleton (PipeEnd.no_slash hend)]
    unfold parsePipePath
    rw [dropSlashes slashes hhead, hsplit]
    show (parseUsize idPart).bind _ = _
    rw [parseUsize_iff.mpr hid, Option.bind_some]
    show (parsePipeEnd endPart).bind _ = _
    rw [parsePipeEnd_iff.mpr hend]
    rfl

/-- The path that is printed for an end names it. -/
theorem pipePath_namesEnd {pipeId : Nat} (h : pipeId < usizeMod) (e : PipeEnd) :
    NamesEnd (pipePath pipeId e) ⟨pipeId, e⟩ := by
  have hend : [e.pathSuffix] ∈ e.names := by cases e <;> decide
  exact ⟨1, Nat.toDigits 10 pipeId, [e.pathSuffix], rfl, printsUsize_toDigits h, hend⟩

/-- The paths of the pipe filesystem: a path is accepted if and only if it is slashes, a number of
a word in digits with at most one `+`, a slash and a name of an end, it names this end and no
other, and the path that `do_pipe2` prints for an end names it, for every number of a word. -/
theorem pipe_paths_exact :
    (∀ path h, parsePipePath path = some h ↔ NamesEnd path h) ∧
    (∀ path h h', NamesEnd path h → NamesEnd path h' → h = h') ∧
    ∀ pipeId e, pipeId < 2 ^ 64 → parsePipePath (pipePath pipeId e) = some ⟨pipeId, e⟩ := by
  refine ⟨fun path h => parsePipePath_iff, ?_, ?_⟩
  · intro path h h' hn hn'
    have hsame := (parsePipePath_iff.mpr hn).symm.trans (parsePipePath_iff.mpr hn')
    exact Option.some.inj hsame
  · intro pipeId e hid
    exact parsePipePath_iff.mpr (pipePath_namesEnd hid e)

/-- The path of the largest number, and a longer one of the same end. -/
theorem pipe_paths_exact_largest :
    parsePipePath (pipePath usizeMax .write) = some ⟨usizeMax, .write⟩ ∧
      parsePipePath ("//+018446744073709551615/write".toList) = some ⟨usizeMax, .write⟩ := by
  have hmax : usizeMax < usizeMod := by
    unfold usizeMax usizeMod
    omega
  refine ⟨pipe_paths_exact.2.2 usizeMax .write hmax, (pipe_paths_exact.1 _ _).mpr ?_⟩
  refine ⟨2, "+018446744073709551615".toList, "write".toList, by decide, ⟨?_, hmax⟩, by decide⟩
  exact ⟨['+'], "018446744073709551615".toList, by decide, .inr rfl, by decide,
    List.all_eq_true.mp (by decide), by decide⟩

/-! ### The calls of `pipe2` -/

/-- A call names a pipe, by its number or in a path. -/
def PipeOp.Names (pipeId : Nat) : PipeOp → Prop
  | .openPath _ path => ∃ h, parsePipePath path = some h ∧ h.pipeId = pipeId
  | .read h _ | .write h _ => h.pipeId = pipeId
  | .create | .close _ => False

namespace PipeFs

/-- A pipe that has the ends of `own` open, and no others, and that no byte has gone through. -/
structure Connected (s : PipeFs) (pipeId : Nat) (p : PipeState)
    (own : List (HandleAddr × PipeHandle)) : Prop where
  pipe : s.pipe? pipeId = some p
  mine : ∀ x ∈ own, s.handles.get? x.1 = some x.2
  others : ∀ addr h, s.handles.get? addr = some h → h.pipeId = pipeId → (addr, h) ∈ own
  unused : s.accepted pipeId = [] ∧ s.returned pipeId = []

variable {s : PipeFs} {n pipeId : Nat} {p : PipeState} {own : List (HandleAddr × PipeHandle)}

/-- A new pipe has no end. -/
theorem Ok.connected (h : s.Ok n) (hn : n + 1 < usizeMod) :
    (s.step .create).Connected s.reg.nextPipeId ⟨[], 0, 0⟩ [] := by
  have hnext : s.reg.nextPipeId = n + 1 := by
    rw [h.next]
    exact Nat.mod_eq_of_lt hn
  have hfree := h.unused s.reg.nextPipeId (by omega)
  refine ⟨OrdMap.get?_insert_self _ _ _, by simp, fun addr d hget hid => ?_, ?_⟩
  · -- a handle names a pipe that there was before
    obtain ⟨p', hp'⟩ := Option.isSome_iff_exists.mp (h.held addr d hget)
    have hle := (h.known _ p' hp').2
    omega
  · exact ⟨(accepted_append _ _ _ _).trans ((List.append_nil _).trans hfree.1),
      (returned_append _ _ _ _).trans ((List.append_nil _).trans hfree.2)⟩

/-- A call of another client, that neither names the pipe nor closes an end of ours, changes nothing
of it. -/
theorem Connected.step (hc : s.Connected pipeId p own) (h : s.Ok n) {op : PipeOp}
    (hn : n + createdPipes [op] < usizeMod) (hnames : ¬ op.Names pipeId)
    (hclose : ∀ x ∈ own, op ≠ .close x.1) : (s.step op).Connected pipeId p own := by
  -- the request is about another pipe, by its number or by its handle
  have htarget : op.target s ≠ some pipeId := by
    intro ht
    cases op with
    | create => cases ht
    | openPath addr path =>
      obtain ⟨d, hd, hid⟩ := Option.map_eq_some_iff.mp ht
      exact hnames ⟨d, hd, hid⟩
    | read d len => exact hnames (Option.some.inj ht)
    | write d src => exact hnames (Option.some.inj ht)
    | close addr =>
      obtain ⟨d, hd, hid⟩ := Option.map_eq_some_iff.mp ht
      exact hclose _ (hc.others addr d hd hid) rfl
  obtain ⟨hpipe, hacc, hret⟩ := h.step_frame op hn hc.pipe htarget
  refine ⟨hpipe, ?_, ?_, hacc.trans hc.unused.1, hret.trans hc.unused.2⟩
  -- our handles stay: they are not closed, and an open one is not opened again
  · intro x hx
    have hmine := hc.mine x hx
    have hstepped := stepped s op
    generalize s.step op = s' at hstepped ⊢
    cases hstepped with
    | failed => exact hmine
    | created => exact hmine
    | @opened addr path d p' hpath haddr hp' =>
      have hne : x.1 ≠ addr := by
        intro heq
        rw [heq, haddr] at hmine
        cases hmine
      exact (OrdMap.get?_insert_ne _ _ hne).trans hmine
    | read => exact hmine
    | wrote => exact hmine
    | @closed addr d hget =>
      have hne : x.1 ≠ addr := fun heq => hclose x hx (by rw [heq])
      exact (OrdMap.get?_erase_ne _ hne).trans hmine
  -- a handle on the pipe is one of ours: a new one would have named it
  · intro addr' d' hget' hid
    have hstepped := stepped s op
    generalize s.step op = s' at hstepped hget'
    cases hstepped with
    | failed => exact hc.others addr' d' hget' hid
    | created => exact hc.others addr' d' hget' hid
    | @opened addr path d p' hpath haddr hp' =>
      by_cases heq : addr' = addr
      · -- the new end is that of another pipe
        rw [heq] at hget'
        have hd : d = d' := Option.some.inj ((OrdMap.get?_insert_self _ _ _).symm.trans hget')
        exact absurd ⟨d, hpath, by rw [hd]; exact hid⟩ hnames
      · exact hc.others addr' d' ((OrdMap.get?_insert_ne _ _ heq).symm.trans hget') hid
    | read => exact hc.others addr' d' hget' hid
    | wrote => exact hc.others addr' d' hget' hid
    | @closed addr d hget =>
      by_cases heq : addr' = addr
      · rw [heq] at hget'
        have hnone := (OrdMap.get?_erase_self s.handles addr).symm.trans hget'
        cases hnone
      · exact hc.others addr' d' ((OrdMap.get?_erase_ne _ heq).symm.trans hget') hid

/-- Our open of the path of an end adds the end, at an address that no handle has. -/
theorem Connected.opens (hc : s.Connected pipeId p own) (hid : pipeId < usizeMod)
    {addr : HandleAddr} (e : PipeEnd) (haddr : s.handles.get? addr = none) :
    (s.step (.openPath addr (pipePath pipeId e))).Connected pipeId (p.opened e)
      (own ++ [(addr, ⟨pipeId, e⟩)]) := by
  have hpath : parsePipePath (pipePath pipeId e) = some ⟨pipeId, e⟩ :=
    parsePipePath_iff.mpr (pipePath_namesEnd hid e)
  -- the printed path is parsed back, and the pipe is there, so the request opens it
  have hanswer : s.answer (.openPath addr (pipePath pipeId e)) =
      (.opened ⟨pipeId, e⟩, s.reg.set pipeId (p.opened e), s.handles.insert addr ⟨pipeId, e⟩) := by
    have hget : s.reg.pipes.get? pipeId = some p := hc.pipe
    simp [answer, OrdMap.contains, haddr, PipeRegistry.openPath, hpath, PipeRegistry.openPipe, hget]
  have hstep : s.step (.openPath addr (pipePath pipeId e)) =
      ⟨s.reg.set pipeId (p.opened e), s.handles.insert addr ⟨pipeId, e⟩,
        s.trace ++ [(.openPath addr (pipePath pipeId e), .opened ⟨pipeId, e⟩)]⟩ := by
    rw [PipeFs.step, hanswer]
  rw [hstep]
  refine ⟨OrdMap.get?_insert_self _ _ _, ?_, ?_, ?_⟩
  · intro x hx
    rcases List.mem_append.mp hx with hx | hx
    · have hmine := hc.mine x hx
      have hne : x.1 ≠ addr := by
        intro heq
        rw [heq, haddr] at hmine
        cases hmine
      exact (OrdMap.get?_insert_ne _ _ hne).trans hmine
    · rw [List.mem_singleton.mp hx]
      exact OrdMap.get?_insert_self _ _ _
  -- every handle on the pipe is the new one or an old one
  · intro addr' d' hget' hid'
    by_cases heq : addr' = addr
    · rw [heq] at hget'
      have hd : ⟨pipeId, e⟩ = d' :=
        Option.some.inj ((OrdMap.get?_insert_self _ _ _).symm.trans hget')
      rw [heq, ← hd]
      exact List.mem_append_right _ (List.mem_singleton.mpr rfl)
    · have hold := hc.others addr' d' ((OrdMap.get?_insert_ne _ _ heq).symm.trans hget') hid'
      exact List.mem_append_left _ hold
  · exact ⟨(accepted_append _ _ _ _).trans ((List.append_nil _).trans hc.unused.1),
      (returned_append _ _ _ _).trans ((List.append_nil _).trans hc.unused.2)⟩

/-- Calls of other clients, one after the other. -/
theorem Connected.run (ops : List PipeOp) (hc : s.Connected pipeId p own) (h : s.Ok n)
    (hn : n + createdPipes ops < usizeMod) (hnames : ∀ op ∈ ops, ¬ op.Names pipeId)
    (hclose : ∀ op ∈ ops, ∀ x ∈ own, op ≠ .close x.1) :
    (ops.foldl PipeFs.step s).Connected pipeId p own ∧
      (ops.foldl PipeFs.step s).Ok (n + createdPipes ops) := by
  induction ops generalizing s n with
  | nil => exact ⟨hc, h⟩
  | cons op ops ih =>
    have hcount : createdPipes (op :: ops) = createdPipes [op] + createdPipes ops :=
      createdPipes_append [op] ops
    rw [hcount] at hn ⊢
    have hstep := hc.step h (by omega) (hnames op List.mem_cons_self)
      (hclose op List.mem_cons_self)
    have hrest := ih hstep (h.step op (by omega)) (by omega)
      (fun o ho => hnames o (List.mem_cons_of_mem op ho))
      (fun o ho => hclose o (List.mem_cons_of_mem op ho))
    rw [Nat.add_assoc] at hrest
    exact hrest

end PipeFs

/-- The three calls of a `pipe2` connect a pipe of their own, whatever calls of other clients come
before, between and after them: as long as these do not name the number that was given out, and do
not close an end of ours once it is open, the paths that are printed for the number open the two
ends of the new pipe, nobody else has an end of it, and no byte has gone through it. -/
theorem pipe2_connects (before mid₁ mid₂ after : List PipeOp) (a b : HandleAddr) {pipeId : Nat}
    (hid : pipeId = (PipeFs.run before).reg.createPipe.1)
    (hfew : createdPipes (before ++ mid₁ ++ mid₂ ++ after) + 1 < 2 ^ 64)
    (hnames : ∀ op ∈ mid₁ ++ mid₂ ++ after, ¬ op.Names pipeId)
    (hread : ∀ op ∈ mid₂ ++ after, op ≠ .close a) (hwrite : ∀ op ∈ after, op ≠ .close b)
    (ha : (PipeFs.run (before ++ .create :: mid₁)).handles.get? a = none)
    (hb : (PipeFs.run (before ++ .create :: mid₁ ++
      .openPath a (pipePath pipeId .read) :: mid₂)).handles.get? b = none) :
    (PipeFs.run (before ++ .create :: mid₁ ++ .openPath a (pipePath pipeId .read) :: mid₂ ++
        .openPath b (pipePath pipeId .write) :: after)).Connected pipeId ⟨[], 1, 1⟩
      [(a, ⟨pipeId, .read⟩), (b, ⟨pipeId, .write⟩)] := by
  simp only [PipeFs.createdPipes_append] at hfew
  simp only [List.mem_append] at hnames hread
  have hmod : usizeMod = 2 ^ 64 := rfl
  have hopen : ∀ addr path, createdPipes [.openPath addr path] = 0 := fun _ _ => rfl
  have h₀ := PipeFs.run_ok before (by omega)
  have hnext : pipeId = createdPipes before + 1 := by
    rw [hid]
    show (PipeFs.run before).reg.nextPipeId = _
    rw [h₀.next]
    exact Nat.mod_eq_of_lt (by omega)
  have hfits : pipeId < usizeMod := by omega
  -- the pipe is new
  have hc₁ := h₀.connected (by omega)
  have hok₁ : ((PipeFs.run before).step .create).Ok (createdPipes before + 1) :=
    h₀.create (by omega)
  rw [show (PipeFs.run before).reg.nextPipeId = pipeId from hid.symm] at hc₁
  obtain ⟨hc₂, hok₂⟩ := hc₁.run mid₁ hok₁ (by omega)
    (fun op hop => hnames op (.inl (.inl hop))) (fun _ _ x hx => absurd hx List.not_mem_nil)
  rw [PipeFs.run_append] at ha
  -- the read end
  have hc₃ := hc₂.opens hfits .read ha
  have hok₃ := hok₂.step (.openPath a (pipePath pipeId .read)) (by rw [hopen]; omega)
  rw [hopen] at hok₃
  obtain ⟨hc₄, hok₄⟩ := hc₃.run mid₂ hok₃ (by omega)
    (fun op hop => hnames op (.inl (.inr hop))) (fun op hop x hx => by
      rw [List.mem_singleton.mp hx]
      exact hread op (.inl hop))
  rw [PipeFs.run_append, PipeFs.run_append] at hb
  -- the write end
  have hc₅ := hc₄.opens hfits .write hb
  have hok₅ := hok₄.step (.openPath b (pipePath pipeId .write)) (by rw [hopen]; omega)
  rw [hopen] at hok₅
  obtain ⟨hc₆, -⟩ := hc₅.run after hok₅ (by omega)
    (fun op hop => hnames op (.inr hop)) (fun op hop x hx => by
      rcases List.mem_append.mp hx with hx | hx
      · rw [List.mem_singleton.mp hx]
        exact hread op (.inr hop)
      · rw [List.mem_singleton.mp hx]
        exact hwrite op hop)
  rw [PipeFs.run_append, PipeFs.run_append, PipeFs.run_append]
  exact hc₆

/-- A pipe is connected while another client writes to its own, closes its read end, whose address
the new read end gets, and creates a pipe. -/
theorem pipe2_connects_sample :
    (PipeFs.run (samplePipe ++ .create :: [.write ⟨1, .write⟩ [1], .close ⟨16, by decide⟩] ++
        .openPath ⟨16, by decide⟩ (pipePath 2 .read) :: [.create] ++
        .openPath ⟨64, by decide⟩ (pipePath 2 .write) :: [.close ⟨32, by decide⟩])).Connected 2
      ⟨[], 1, 1⟩ [(⟨16, by decide⟩, ⟨2, .read⟩), (⟨64, by decide⟩, ⟨2, .write⟩)] :=
  pipe2_connects samplePipe [.write ⟨1, .write⟩ [1], .close ⟨16, by decide⟩] [.create]
    [.close ⟨32, by decide⟩] ⟨16, by decide⟩ ⟨64, by decide⟩ (by decide +kernel) (by decide)
    (by simp [PipeOp.Names]) (by decide) (by decide) (by decide +kernel) (by decide +kernel)

end Ape
