import Ape.Lib.Cuts
import Ape.Proofs.TtyEcho
import Mathlib.Data.List.TakeWhile

/-!
# `Ape.Proofs.TtyQueries`: status queries on the way to the host

`strip_dsr_queries` removes the status queries of one write, in one pass. `IsQuery` are
the queries, and `parseDsrQueryLen_iff` says that the parser finds exactly them. A removed
query leaves a cut in the output, and so does the end of a write: `lexDsr` and
`writeTokens` are the output with its cuts.

No query comes through in one piece (`lexLoop_unbroken`). What can come through is a query
whose bytes lie around a cut: the parts of an outer query around an inner one, or a query
over two writes. `dsr_queries_reach_host_iff` says that there is no other way.
-/

set_option autoImplicit false

namespace Ape

open Ape.Lib

variable {A : AnsiParser}

/-! ### Queries -/

/-- The number that decimal digits spell. -/
def decimal (digits : List UInt8) : Nat := digits.foldl (fun n d => n * 10 + (d.toNat - 0x30)) 0

/-- The bytes are a status query: `ESC [`, a `?` or not, digits that spell 5 or 6, and `n`. -/
def IsQuery (q : List UInt8) : Prop :=
  ∃ mark digits, q = 0x1b :: 0x5b :: (mark ++ (digits ++ [0x6e])) ∧ (mark = [] ∨ mark = [0x3f]) ∧
    digits ≠ [] ∧ (∀ d ∈ digits, isAsciiDigit d = true) ∧ (decimal digits = 5 ∨ decimal digits = 6)

/-- The parameter of the parser is the number, up to where it saturates. -/
theorem dsrParam_eq (digits : List UInt8) :
    dsrParam digits = min (decimal digits) (2 ^ 32 - 1) := by
  have hfold : ∀ (ds : List UInt8) (n : Nat),
      ds.foldl (fun param d => min (min (param * 10) (2 ^ 32 - 1) + (d.toNat - 0x30)) (2 ^ 32 - 1))
          (min n (2 ^ 32 - 1))
        = min (ds.foldl (fun n d => n * 10 + (d.toNat - 0x30)) n) (2 ^ 32 - 1) := by
    intro ds
    induction ds with
    | nil => intro n; rfl
    | cons d ds ih =>
      intro n
      rw [List.foldl_cons, List.foldl_cons, ← ih]
      congr 1
      omega
  exact hfold digits 0

/-- The saturating number of a query is 5 or 6 when its digits say so. -/
theorem dsrParam_hits (digits : List UInt8) :
    (dsrParam digits = 5 ∨ dsrParam digits = 6) ↔ (decimal digits = 5 ∨ decimal digits = 6) := by
  rw [dsrParam_eq]
  omega

/-- The digits that the parser reads. -/
theorem takeWhile_digits {digits rest : List UInt8} (hd : ∀ d ∈ digits, isAsciiDigit d = true)
    (hrest : ∀ b, rest.head? = some b → isAsciiDigit b = false) :
    (digits ++ rest).takeWhile isAsciiDigit = digits := by
  rw [List.takeWhile_append_of_pos hd]
  cases rest with
  | nil => exact List.append_nil _
  | cons b rest =>
    rw [List.takeWhile_cons_of_neg (by rw [hrest b rfl]; exact Bool.false_ne_true), List.append_nil]

/-- The part of the parser after `ESC [` and the `?`. -/
theorem parseDsrQueryLen_body {rest body : List UInt8}
    (hbody : (if rest.head? = some 0x3f then rest.tail else rest) = body) :
    parseDsrQueryLen (0x1b :: 0x5b :: rest)
      = if body.takeWhile isAsciiDigit = [] ∨
          (body.drop (body.takeWhile isAsciiDigit).length).head? ≠ some 0x6e then none
        else if dsrParam (body.takeWhile isAsciiDigit) = 5 ∨
          dsrParam (body.takeWhile isAsciiDigit) = 6 then
          some (2 + (rest.length - body.length) + (body.takeWhile isAsciiDigit).length + 1)
        else none := by
  subst hbody
  rfl

/-- A query is found at the start of what begins with it. -/
theorem parseDsrQueryLen_query {q : List UInt8} (h : IsQuery q) (rest : List UInt8) :
    parseDsrQueryLen (q ++ rest) = some q.length := by
  obtain ⟨mark, digits, rfl, hmark, hne, hd, hnum⟩ := h
  let body := digits ++ 0x6e :: rest
  have hdigits : body.takeWhile isAsciiDigit = digits :=
    takeWhile_digits hd fun b hb => by cases hb; rfl
  have hhead : body.head? ≠ some 0x3f := by
    cases digits with
    | nil => exact absurd rfl hne
    | cons d ds =>
      intro heq
      cases heq
      exact absurd (hd 0x3f List.mem_cons_self) (by decide)
  -- the `?` is skipped when there is one
  have hbody : (if (mark ++ body).head? = some 0x3f then (mark ++ body).tail else mark ++ body)
      = body := by
    rcases hmark with rfl | rfl
    · exact if_neg hhead
    · exact if_pos rfl
  have hlist : 0x1b :: 0x5b :: (mark ++ (digits ++ [0x6e])) ++ rest = 0x1b :: 0x5b
    :: (mark ++ body) := by
    simp [body]
  have hend : (body.drop digits.length).head? = some 0x6e := by
    rw [List.drop_left]
    rfl
  rw [hlist, parseDsrQueryLen_body hbody, hdigits, if_neg (by simp [hne, hend]),
    if_pos ((dsrParam_hits _).mpr hnum)]
  simp only [List.length_cons, List.length_append, List.length_nil, Option.some.injEq]
  omega

/-- What the parser finds is a query at the start. -/
theorem query_of_parseDsrQueryLen {l : List UInt8} {n : Nat} (h : parseDsrQueryLen l = some n) :
    ∃ q rest, l = q ++ rest ∧ IsQuery q ∧ q.length = n := by
  obtain ⟨tail, rfl⟩ : ∃ tail, l = 0x1b :: 0x5b :: tail := by
    unfold parseDsrQueryLen at h
    split at h
    · exact ⟨_, rfl⟩
    · cases h
  -- the question mark is optional
  obtain ⟨mark, body, rfl, hmark, hbody⟩ : ∃ mark body, tail = mark ++ body ∧
      (mark = [] ∨ mark = [0x3f]) ∧
      (if tail.head? = some 0x3f then tail.tail else tail) = body := by
    by_cases hq : tail.head? = some 0x3f
    · obtain ⟨r, rfl⟩ := List.head?_eq_some_iff.mp hq
      exact ⟨[0x3f], r, rfl, .inr rfl, rfl⟩
    · exact ⟨[], tail, rfl, .inl rfl, if_neg hq⟩
  rw [parseDsrQueryLen_body hbody] at h
  split at h
  · cases h
  rename_i hshape
  rw [not_or, not_not] at hshape
  -- the parameter is a number that is asked for
  split at h
  · rename_i hnum
    -- the digits end at the `n`
    let digits := body.takeWhile isAsciiDigit
    obtain ⟨r, hr⟩ := List.head?_eq_some_iff.mp hshape.2
    have hsplit : body = digits ++ 0x6e :: r := by
      have hdrop : body.drop digits.length = body.dropWhile isAsciiDigit := by
        conv_lhs => rw [← List.takeWhile_append_dropWhile (p := isAsciiDigit) (l := body)]
        exact List.drop_left
      rw [← hr, hdrop, List.takeWhile_append_dropWhile]
    refine ⟨0x1b :: 0x5b :: (mark ++ (digits ++ [0x6e])), r, ?_, ?_, ?_⟩
    · rw [hsplit]
      simp
    · refine ⟨mark, digits, rfl, hmark, hshape.1, ?_, (dsrParam_hits _).mp hnum⟩
      intro d hd
      exact List.mem_takeWhile_imp hd
    · cases h
      have hlen : (body.takeWhile isAsciiDigit).length = digits.length := rfl
      simp only [List.length_cons, List.length_append, List.length_nil, hlen]
      omega
  · cases h

/-- A query has at least two bytes. -/
theorem IsQuery.two_le {q : List UInt8} (h : IsQuery q) : 2 ≤ q.length := by
  obtain ⟨mark, digits, rfl, -⟩ := h
  simp

/-- A query is not empty. -/
theorem IsQuery.ne_nil {q : List UInt8} (h : IsQuery q) : q ≠ [] := by
  rintro rfl
  exact absurd h.two_le (by decide)

/-! ### One write -/

/-- The loop of `strip_dsr_queries`, with a cut for each query that it removes. -/
def lexLoop : Nat → List UInt8 → List (Option UInt8)
  | 0, _ => []
  | _ + 1, [] => []
  | fuel + 1, b :: input =>
    match parseDsrQueryLen (b :: input) with
    | some skip => none :: lexLoop fuel ((b :: input).drop skip)
    | none => some b :: lexLoop fuel input

/-- The output of a write, with its cuts. -/
def lexDsr (input : List UInt8) : List (Option UInt8) := lexLoop input.length input

/-- The loop that strips queries keeps what is not a query. -/
theorem stripLoop_eq (fuel : Nat) (input : List UInt8) :
    stripLoop fuel input = (lexLoop fuel input).reduceOption := by
  induction fuel generalizing input with
  | zero => rfl
  | succ fuel ih =>
    cases input with
    | nil => rfl
    | cons b input =>
      unfold stripLoop lexLoop
      cases parseDsrQueryLen (b :: input) with
      | some skip => exact ih _
      | none => exact congrArg (b :: ·) (ih input)

/-- What is stripped of queries are the tokens that are none. -/
theorem stripDsrQueries_eq (input : List UInt8) :
    stripDsrQueries input = (lexDsr input).reduceOption := stripLoop_eq _ _

/-- Bytes in one piece at the start of the output are the start of the input. -/
theorem lexLoop_prefix {q : List UInt8} {ts : List (Option UInt8)} {fuel : Nat}
    {input : List UInt8} (h : lexLoop fuel input = q.map some ++ ts) : q <+: input := by
  induction q generalizing fuel input with
  | nil => exact List.nil_prefix
  | cons b q ih =>
    cases fuel with
    | zero => cases h
    | succ fuel =>
      cases input with
      | nil => cases h
      -- no query begins here, so the byte is kept
      | cons b' input =>
        unfold lexLoop at h
        cases hparse : parseDsrQueryLen (b' :: input) with
        | some skip =>
          rw [hparse] at h
          cases h
        | none =>
          rw [hparse] at h
          have hcons : some b' :: lexLoop fuel input = some b :: (q.map some ++ ts) := h
          rw [List.cons.injEq, Option.some.injEq] at hcons
          rw [hcons.1]
          exact (List.prefix_cons_inj b).mpr (ih hcons.2)

/-- No query comes through in one piece. -/
theorem lexLoop_unbroken (fuel : Nat) (input : List UInt8) :
    Cuts.Unbroken IsQuery (lexLoop fuel input) := by
  -- the rounds of the loop, and the tokens before the query
  induction fuel generalizing input with
  | zero =>
    intro q hq hquery
    have hnil : q.map some = [] := List.infix_nil.mp hq
    exact hquery.ne_nil (List.map_eq_nil_iff.mp hnil)
  | succ fuel ih =>
    rintro q ⟨before, after, heq⟩ hquery
    cases before with
    | nil =>
      -- at the start of the output the parser stands at the query, and removes it
      rw [List.nil_append] at heq
      obtain ⟨rest, rfl⟩ := lexLoop_prefix heq.symm
      obtain ⟨b, q, rfl⟩ := List.exists_cons_of_ne_nil hquery.ne_nil
      have hparse := parseDsrQueryLen_query hquery rest
      rw [List.cons_append] at hparse heq
      unfold lexLoop at heq
      rw [hparse] at heq
      cases heq
    | cons t before =>
      -- later in the output, it is in the output of the other rounds
      cases input with
      | nil => cases heq
      | cons b input =>
        unfold lexLoop at heq
        cases hparse : parseDsrQueryLen (b :: input) with
        | some skip =>
          rw [hparse] at heq
          have htail := (List.cons.inj heq).2
          exact ih _ q ⟨before, after, htail⟩ hquery
        | none =>
          rw [hparse] at heq
          have htail := (List.cons.inj heq).2
          exact ih _ q ⟨before, after, htail⟩ hquery

/-- The tokens of an output break no query. -/
theorem lexDsr_unbroken (input : List UInt8) : Cuts.Unbroken IsQuery (lexDsr input) :=
  lexLoop_unbroken _ _

/-- Without a cut the loop puts out what comes in. -/
theorem lexLoop_of_uncut {fuel : Nat} {input : List UInt8} (hfuel : input.length ≤ fuel)
    (h : none ∉ lexLoop fuel input) : lexLoop fuel input = input.map some := by
  induction fuel generalizing input with
  | zero =>
    have hnil : input = [] := List.eq_nil_of_length_eq_zero (Nat.le_zero.mp hfuel)
    rw [hnil]
    rfl
  | succ fuel ih =>
    cases input with
    | nil => rfl
    | cons b input =>
      unfold lexLoop at h ⊢
      cases hparse : parseDsrQueryLen (b :: input) with
      | some skip =>
        rw [hparse] at h
        exact absurd List.mem_cons_self h
      | none =>
        rw [hparse] at h
        have hrest : none ∉ lexLoop fuel input := fun hmem => h (List.mem_cons_of_mem _ hmem)
        exact congrArg (some b :: ·) (ih (Nat.le_of_succ_le_succ hfuel) hrest)

/-- A removed query makes the output shorter. -/
theorem length_stripLoop_lt {fuel : Nat} {input : List UInt8} (h : none ∈ lexLoop fuel input) :
    (stripLoop fuel input).length < input.length := by
  have hle : ∀ (fuel : Nat) (input : List UInt8), (stripLoop fuel input).length ≤ input.length := by
    intro fuel
    induction fuel with
    | zero => exact fun _ => Nat.zero_le _
    | succ fuel ih =>
      intro input
      cases input with
      | nil => exact Nat.le_refl _
      | cons b input =>
        unfold stripLoop
        cases parseDsrQueryLen (b :: input) with
        | some skip =>
          have hdrop := ih ((b :: input).drop skip)
          rw [List.length_drop] at hdrop
          exact hdrop.trans (Nat.sub_le _ _)
        | none => exact Nat.succ_le_succ (ih input)
  induction fuel generalizing input with
  | zero => cases h
  | succ fuel ih =>
    cases input with
    | nil => cases h
    | cons b input =>
      unfold lexLoop at h
      unfold stripLoop
      cases hparse : parseDsrQueryLen (b :: input) with
      | some skip =>
        -- a query has at least two bytes
        obtain ⟨q, rest, hq, hquery, rfl⟩ := query_of_parseDsrQueryLen hparse
        have hlen := congrArg List.length hq
        have htwo := hquery.two_le
        have hrest := hle fuel ((b :: input).drop q.length)
        rw [List.length_drop] at hrest
        rw [List.length_append] at hlen
        show (stripLoop fuel ((b :: input).drop q.length)).length < _
        omega
      | none =>
        rw [hparse] at h
        rcases List.mem_cons.mp h with hcut | hmem
        · cases hcut
        · exact Nat.succ_lt_succ (ih hmem)

/-- A pass leaves the input alone exactly when it finds nothing, that is, when there is no query. -/
theorem stripDsrQueries_fixed_iff (input : List UInt8) :
    stripDsrQueries input = input ↔ Cuts.Free IsQuery input := by
  constructor
  -- a cut would make the output shorter
  · intro hfix q hq
    have hcut : none ∉ lexDsr input := by
      intro hmem
      have hlt := length_stripLoop_lt hmem
      exact absurd (congrArg List.length hfix) hlt.ne
    refine lexDsr_unbroken input q ?_
    unfold lexDsr at hcut ⊢
    rw [lexLoop_of_uncut (Nat.le_refl _) hcut]
    exact hq.map some
  · intro hfree
    -- without a query each byte is kept
    have hnone : ∀ (fuel : Nat) (rest : List UInt8), rest <:+: input → rest.length ≤ fuel →
        stripLoop fuel rest = rest := by
      intro fuel
      induction fuel with
      | zero =>
        intro rest _ hlen
        exact (List.eq_nil_of_length_eq_zero (Nat.le_zero.mp hlen)).symm
      | succ fuel ih =>
        intro rest hrest hlen
        cases rest with
        | nil => rfl
        | cons b rest =>
          unfold stripLoop
          cases hparse : parseDsrQueryLen (b :: rest) with
          | some skip =>
            obtain ⟨q, tail, hq, hquery, -⟩ := query_of_parseDsrQueryLen hparse
            rw [hq] at hrest
            exact absurd hquery (hfree q ((List.prefix_append q tail).isInfix.trans hrest))
          | none =>
            have htail : rest <:+: input := (List.suffix_cons b rest).isInfix.trans hrest
            exact congrArg (b :: ·) (ih rest htail (Nat.le_of_succ_le_succ hlen))
    exact hnone _ input (List.infix_refl _) (Nat.le_refl _)

/-! ### Runs -/

/-- The host takes a part of the output, from its start. -/
theorem sendLoop_prefix (rs : List PrismReply) (data : List UInt8) :
    (sendLoop rs data).2.2 <+: data := by
  induction rs generalizing data with
  | nil => cases data <;> exact List.nil_prefix
  | cons r rs ih =>
    cases data with
    | nil => exact List.nil_prefix
    | cons b data =>
      unfold sendLoop
      cases prismStreamWrite r (b :: data) with
      | error e => exact List.nil_prefix
      | ok n =>
        obtain ⟨rest, hrest⟩ := ih ((b :: data).drop n)
        refine ⟨rest, ?_⟩
        show (b :: data).take n ++ (sendLoop rs ((b :: data).drop n)).2.2 ++ rest = b :: data
        rw [List.append_assoc, hrest, List.take_append_drop]

namespace TtyDevice

/-- What the host takes in a write. -/
def taken (d : TtyDevice A) (buf : List UInt8) : List UInt8 :=
  (sendLoop d.writes (stripDsrQueries (ttyOutputTransform d.compat.termios buf))).2.2

/-- A write sends on what it takes. -/
theorem sent_write (d : TtyDevice A) (buf : List UInt8) :
    (d.write buf).2.sent = d.sent ++ d.taken buf := by
  have hnil : ∀ tx : List UInt8, tx = [] → (sendLoop d.writes tx).2.2 = [] := by
    rintro tx rfl
    cases d.writes <;> rfl
  unfold write taken
  by_cases hbuf : buf = []
  · have hstrip : stripDsrQueries [] = [] := rfl
    rw [if_pos hbuf, hbuf, ttyOutputTransform_nil, hnil _ hstrip, List.append_nil]
  · rw [if_neg hbuf]
    dsimp only
    by_cases htx : stripDsrQueries (ttyOutputTransform d.compat.termios buf) = []
    · rw [if_pos htx, hnil _ htx, List.append_nil]
    · rw [if_neg htx]

/-- The output of a write as far as the host took it, with its cuts and one at the end. -/
def writeTokens (d : TtyDevice A) (buf : List UInt8) : List (Option UInt8) :=
  Cuts.takeValues (d.taken buf).length (lexDsr (ttyOutputTransform d.compat.termios buf)) ++ [none]

/-- The tokens of a write, without queries, are the bytes it takes. -/
theorem reduceOption_writeTokens (d : TtyDevice A) (buf : List UInt8) :
    (d.writeTokens buf).reduceOption = d.taken buf := by
  unfold writeTokens
  rw [List.reduceOption_append, Cuts.reduceOption_takeValues, ← stripDsrQueries_eq]
  have hprefix := sendLoop_prefix d.writes
    (stripDsrQueries (ttyOutputTransform d.compat.termios buf))
  exact (List.append_nil _).trans (List.prefix_iff_eq_take.mp hprefix).symm

/-- A sequence of writes. -/
def writeRun (d : TtyDevice A) (bufs : List (List UInt8)) : TtyDevice A :=
  bufs.foldl (fun d buf => (d.write buf).2) d

/-- The output of a sequence of writes, with its cuts. -/
def runTokens (d : TtyDevice A) : List (List UInt8) → List (Option UInt8)
  | [] => []
  | buf :: bufs => d.writeTokens buf ++ runTokens (d.write buf).2 bufs

/-- A run of writes sends on what they take. -/
theorem sent_writeRun (bufs : List (List UInt8)) (d : TtyDevice A) :
    (d.writeRun bufs).sent = d.sent ++ (d.runTokens bufs).reduceOption := by
  induction bufs generalizing d with
  | nil => exact (List.append_nil _).symm
  | cons buf bufs ih =>
    show ((d.write buf).2.writeRun bufs).sent = _
    rw [ih, sent_write, runTokens, List.reduceOption_append, reduceOption_writeTokens,
      List.append_assoc]

/-- The tokens of a run of writes break no query. -/
theorem runTokens_unbroken (bufs : List (List UInt8)) (d : TtyDevice A) :
    Cuts.Unbroken IsQuery (d.runTokens bufs) := by
  have hempty : ¬ IsQuery [] := fun h => h.ne_nil rfl
  induction bufs generalizing d with
  | nil => exact (lexLoop_unbroken 0 []).mono (List.infix_refl _)
  | cons buf bufs ih =>
    have hwrite : Cuts.Unbroken IsQuery (Cuts.takeValues (d.taken buf).length
        (lexDsr (ttyOutputTransform d.compat.termios buf))) :=
      (lexDsr_unbroken _).mono (Cuts.takeValues_prefix _ _).isInfix
    have hrun := hwrite.append (ih (d.write buf).2) hempty
    rw [runTokens, writeTokens, List.append_assoc]
    exact hrun

end TtyDevice

/-- A terminal that has written nothing, with the answers of the host to come. -/
def TtyDevice.unwritten (s : TtyCompatState A) (writes : List PrismReply) : TtyDevice A :=
  ⟨s, [], [], writes, []⟩

/-- The bytes that the host gets over a sequence of writes have no status query in them exactly
when none spans a cut of the output, that is, a removed query or the end of a write. One pass
over some bytes leaves nothing for a second pass under the same condition. -/
theorem dsr_queries_reach_host_iff (s : TtyCompatState A) (writes : List PrismReply)
    (bufs : List (List UInt8)) (input : List UInt8) :
    (Cuts.Free IsQuery ((TtyDevice.unwritten s writes).writeRun bufs).sent
        ↔ ¬ Cuts.Straddled IsQuery ((TtyDevice.unwritten s writes).runTokens bufs)) ∧
      (stripDsrQueries (stripDsrQueries input) = stripDsrQueries input
        ↔ ¬ Cuts.Straddled IsQuery (lexDsr input)) := by
  have hlong : ∀ q, IsQuery q → 2 ≤ q.length := fun _ h => h.two_le
  constructor
  · rw [TtyDevice.sent_writeRun]
    exact Cuts.free_iff hlong (TtyDevice.runTokens_unbroken bufs _)
  · rw [stripDsrQueries_fixed_iff, stripDsrQueries_eq]
    exact Cuts.free_iff hlong (lexDsr_unbroken input)

/-- A query around another one. -/
def nestedQuery : List UInt8 := [ESC, 0x5b, ESC, 0x5b, 0x35, 0x6e, 0x36, 0x6e]

/-- The parts of a query around a removed one reach the host as a query. -/
theorem nested_query_reaches_host :
    ¬ ∀ (A : AnsiParser) (s : TtyCompatState A) writes bufs,
      Cuts.Free IsQuery ((TtyDevice.unwritten s writes).writeRun bufs).sent := by
  intro h
  have hfree := h sampleParser (.default _) [⟨none, 64, 0⟩] [nestedQuery]
  have hsent : ((TtyDevice.unwritten (.default sampleParser) [⟨none, 64, 0⟩]).writeRun
      [nestedQuery]).sent = [0x1b, 0x5b, 0x36, 0x6e] := by decide +kernel
  rw [hsent] at hfree
  refine hfree _ (List.infix_refl _) ⟨[], [0x36], rfl, .inl rfl, by decide, ?_, .inr rfl⟩
  intro d hd
  cases List.mem_singleton.mp hd
  rfl

end Ape
