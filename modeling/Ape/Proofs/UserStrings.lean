import Ape.Proofs.UserCopies

/-!
# `Ape.Proofs.UserStrings`: strings that a process passes

`strncpy_from_user` reads bytes up to a null byte, entry by entry, with a limit. What a process may
read is a memory of its own, `World.readable`. Over a memory there are three ways for such a scan to
end, and they exclude each other: a string is there, the limit comes first, or a byte that cannot be
read. The scan returns the first of them that it meets, so it never asks for the bytes behind the
null byte.

`read_user_string_array` follows an array of pointers up to a null pointer, with a limit too.
-/

set_option autoImplicit false

namespace Ape

open Ape.Lib Cmd

/-! ### Strings in a memory -/

namespace Memory

/-- A string of less than `limit` bytes and its null byte. -/
structure StringAt (m : Memory) (a limit : Nat) (s : List UInt8) : Prop where
  nulFree : 0 ∉ s
  short : s.length < limit
  holds : m.HoldsBytes a (s ++ [0])

/-- There are `limit` bytes, and none of them is null. -/
def TooLong (m : Memory) (a limit : Nat) : Prop :=
  ∃ s, s.length = limit ∧ 0 ∉ s ∧ m.HoldsBytes a s

/-- A byte that cannot be read comes before a null byte and before the limit, at `x`. -/
def BreaksAt (m : Memory) (a limit x : Nat) : Prop :=
  ∃ s, x = a + s.length ∧ s.length < limit ∧ 0 ∉ s ∧ m.HoldsBytes a s ∧ m x = none

variable {m : Memory} {a limit x : Nat} {s t : List UInt8}

/-- Of two lists of bytes at one address, the shorter is a part of the other. -/
theorem HoldsBytes.take_eq (hs : m.HoldsBytes a s) (ht : m.HoldsBytes a t)
    (hle : s.length ≤ t.length) : t.take s.length = s := by
  rw [holdsBytes_iff] at hs ht
  refine List.ext_getElem (by rw [List.length_take]; omega) fun i hi hi' => ?_
  have heq := (ht i (by omega)).symm.trans (hs i hi')
  rw [List.getElem_take]
  exact Option.some.inj heq

/-- The front of bytes in memory is in memory. -/
theorem HoldsBytes.left (h : m.HoldsBytes a (s ++ t)) : m.HoldsBytes a s := by
  rw [holdsBytes_iff] at h ⊢
  intro i hi
  have hbyte := h i (by rw [List.length_append]; omega)
  rwa [List.getElem_append_left hi] at hbyte

/-- No list of bytes without a null byte goes over the end of a string. -/
theorem StringAt.length_le (h : m.StringAt a limit s) (ht : m.HoldsBytes a t) (hne : 0 ∉ t) :
    t.length ≤ s.length := by
  by_contra hlt
  have htake := h.holds.take_eq ht (by rw [List.length_append, List.length_singleton]; omega)
  have hmem : (0 : UInt8) ∈ t.take (s ++ [0]).length := by
    rw [htake]
    exact List.mem_append_right s (List.mem_singleton.mpr rfl)
  exact hne (List.mem_of_mem_take hmem)

/-- One address has one string. -/
theorem StringAt.unique (h : m.StringAt a limit s) (h' : m.StringAt a limit t) : s = t := by
  have hle := h.length_le h'.holds.left h'.nulFree
  have hle' := h'.length_le h.holds.left h.nulFree
  have htake := h.holds.left.take_eq h'.holds.left hle'
  rwa [show s.length = t.length by omega, List.take_length, eq_comm] at htake

/-- A string ends before the limit. -/
theorem StringAt.not_tooLong (h : m.StringAt a limit s) : ¬ m.TooLong a limit := by
  rintro ⟨t, hlen, hne, ht⟩
  have hle := h.length_le ht hne
  have hshort := h.short
  omega

/-- The bytes of a string can be read. -/
theorem StringAt.not_breaksAt (h : m.StringAt a limit s) : ¬ m.BreaksAt a limit x := by
  rintro ⟨t, rfl, -, hne, ht, hnone⟩
  have hle := h.length_le ht hne
  have hbyte := (holdsBytes_iff m a _).mp h.holds t.length (by
    rw [List.length_append, List.length_singleton]
    omega)
  rw [hnone] at hbyte
  cases hbyte

/-- The bytes up to the limit can be read. -/
theorem TooLong.not_breaksAt (h : m.TooLong a limit) : ¬ m.BreaksAt a limit x := by
  obtain ⟨s, hlen, -, hs⟩ := h
  rintro ⟨t, rfl, hlt, -, -, hnone⟩
  have hbyte := (holdsBytes_iff m a s).mp hs t.length (by omega)
  rw [hnone] at hbyte
  cases hbyte

/-- The bytes of a word. -/
theorem bytes_of_word {v : Nat} (h : m.word a = some v) :
    ∃ bs, bs.length = 8 ∧ m.HoldsBytes a bs ∧ leNat bs = v := by
  -- the word is there when each of its bytes is
  have hread : ∀ k b, ((List.range k).mapM fun i => m (b + i)).isSome →
      ∃ bs, bs.length = k ∧ m.HoldsBytes b bs := by
    intro k
    induction k with
    | zero => exact fun b _ => ⟨[], rfl, trivial⟩
    | succ k ih =>
      intro b hsome
      have hnext : (fun i => m (b + (i + 1))) = fun i => m (b + 1 + i) :=
        funext fun i => by rw [Nat.add_right_comm, Nat.add_assoc]
      rw [List.range_succ_eq_map, List.mapM_cons, List.mapM_map] at hsome
      obtain ⟨bs', hbs'⟩ := Option.isSome_iff_exists.mp hsome
      obtain ⟨c, hc, hrest⟩ := Option.bind_eq_some_iff.mp hbs'
      obtain ⟨cs, hcs, -⟩ := Option.bind_eq_some_iff.mp hrest
      obtain ⟨bs, hlen, hbs⟩ := ih (b + 1) (by
        rw [← hnext]
        exact Option.isSome_iff_exists.mpr ⟨cs, hcs⟩)
      exact ⟨c :: bs, by rw [List.length_cons, hlen], hc, hbs⟩
  obtain ⟨bytes, hbytes, hv⟩ := Option.map_eq_some_iff.mp h
  obtain ⟨bs, hlen, hbs⟩ := hread 8 a (Option.isSome_iff_exists.mpr ⟨bytes, hbytes⟩)
  have hall := mapM_of_holdsBytes hbs
  rw [hlen, hbytes] at hall
  exact ⟨bs, hlen, hbs, by rw [← Option.some.inj hall]; exact hv⟩

end Memory

/-! ### The bytes of a string -/

/-- The loop of `ByteArray.toList`, with the bytes `r` taken. -/
theorem toList_loop_eq (b : ByteArray) (i : Nat) (r : List UInt8) :
    ByteArray.toList.loop b i r = r.reverse ++ b.data.toList.drop i := by
  fun_induction ByteArray.toList.loop b i r with
  | case1 i r hlt ih =>
    have hnext : b.data.toList.drop i = b.get! i :: b.data.toList.drop (i + 1) := by
      have hdrop := List.drop_eq_getElem_cons (l := b.data.toList) (i := i) (by simpa using hlt)
      simpa [ByteArray.get!, hlt] using hdrop
    rw [ih, hnext, List.reverse_cons, List.append_assoc]
    rfl
  | case2 i r hge =>
    have hnil : b.data.toList.drop i = [] := by
      rw [List.drop_eq_nil_iff]
      exact Nat.le_of_not_lt hge
    rw [hnil, List.append_nil]

/-- The bytes of a string. -/
theorem utf8_eq (s : String) : utf8 s = s.toByteArray.data.toList :=
    toList_loop_eq s.toByteArray 0 []

/-- A list that is longer than its part up to a null byte goes on with a null byte. -/
theorem takeWhile_nul {bytes : List UInt8} (h : (bytes.takeWhile (· ≠ 0)).length < bytes.length) :
    ∃ rest, bytes = bytes.takeWhile (· ≠ 0) ++ 0 :: rest := by
  induction bytes with
  | nil => exact absurd h (Nat.lt_irrefl _)
  | cons b bytes ih =>
    by_cases hb : b = 0
    · refine ⟨bytes, ?_⟩
      rw [List.takeWhile_cons_of_neg (by simp [hb]), hb]
      rfl
    · rw [List.takeWhile_cons_of_pos (by simp [hb])] at h ⊢
      obtain ⟨rest, hrest⟩ := ih (Nat.lt_of_succ_lt_succ h)
      exact ⟨rest, congrArg (b :: ·) hrest⟩

/-- What `from_utf8` makes of some bytes is the string that has them. -/
theorem fromUTF8?_eq_some {bytes : List UInt8} {s : String} :
    String.fromUTF8? bytes.toByteArray = some s ↔ utf8 s = bytes := by
  rw [utf8_eq]
  constructor
  · intro h
    unfold String.fromUTF8? at h
    split at h
    · cases h
      exact List.toList_data_toByteArray
    · cases h
  · rintro rfl
    have hbytes : s.toByteArray.data.toList.toByteArray = s.toByteArray :=
      ByteArray.ext (Array.toList_inj.mp List.toList_data_toByteArray)
    rw [hbytes]
    unfold String.fromUTF8?
    rw [dif_pos s.isValidUTF8]
    rfl

/-! ### What a process may read -/

/-- The bytes of a process at the addresses that have an entry with READ. -/
def World.readable (w : World) (pid : Nat) : Memory := fun x =>
  (w.lookup pid x).bind fun m => if m.flags.contains Perms.R then w.userByte pid x else none

section Readable

variable {w : World} {mm : MmState} {pid a : Nat} {bs : List UInt8}

/-- Where reading is allowed the readable byte is the byte that is there. -/
theorem World.readable_of_allows (hsound : mm.Sound) (hmm : w.mms.get? pid = some mm) {x : Nat}
    (h : mm.Allows Perms.R x) : w.readable pid x = w.userByte pid x := by
  obtain ⟨m, hm, hperms⟩ := (hsound.allows_iff hmm).mp h
  rw [World.readable, hm, Option.bind_some, if_pos hperms]

/-- Where reading is not allowed no byte is readable. -/
theorem World.readable_eq_none (hsound : mm.Sound) (hmm : w.mms.get? pid = some mm) {x : Nat}
    (h : ¬ mm.Allows Perms.R x) : w.readable pid x = none := by
  rw [World.readable]
  cases hm : w.lookup pid x with
  | none => rfl
  | some m =>
    rw [Option.bind_some, if_neg fun hperms => h ((hsound.allows_iff hmm).mpr ⟨m, hm, hperms⟩)]

/-- A readable byte is where reading is allowed. -/
theorem World.allows_of_readable (hsound : mm.Sound) (hmm : w.mms.get? pid = some mm) {x : Nat}
    {b : UInt8} (h : w.readable pid x = some b) : mm.Allows Perms.R x := by
  by_contra hnot
  rw [World.readable_eq_none hsound hmm hnot] at h
  cases h

/-- Bytes in entries with READ can be read. -/
theorem World.readable_holds (hsound : mm.Sound) (hmm : w.mms.get? pid = some mm)
    (hall : mm.AllowsAll Perms.R a bs.length) (h : Memory.HoldsBytes (w.userByte pid) a bs) :
    (w.readable pid).HoldsBytes a bs := by
  rw [Memory.holdsBytes_iff] at h ⊢
  intro i hi
  rw [World.readable_of_allows hsound hmm (hall (a + i) (by omega) (by omega))]
  exact h i hi

/-- Bytes that can be read are in entries with READ, and outside of the reservation of the stack. -/
theorem World.allowsAll_of_holds (hsound : mm.Sound) (hmm : w.mms.get? pid = some mm)
    (h : (w.readable pid).HoldsBytes a bs) :
    mm.AllowsAll Perms.R a bs.length ∧ ∀ x, a ≤ x → x < a + bs.length → ¬ mm.Reserved x := by
  have hall : mm.AllowsAll Perms.R a bs.length := by
    intro x hx hlt
    have hbyte := (Memory.holdsBytes_iff _ a bs).mp h (x - a) (by omega)
    rw [Nat.add_sub_cancel' hx] at hbyte
    exact World.allows_of_readable hsound hmm hbyte
  refine ⟨hall, ?_⟩
  intro x hx hlt
  obtain ⟨k, m, hk, hin, -⟩ := hall x hx hlt
  exact hsound.unreserved .mapped k m x hk hin

end Readable

/-! ### The scan -/

section Scan

variable {w₀ : World} {mm : MmState} {pid a maxLen : Nat}

/-- The loop of `strncpy_from_user`, with the bytes `out` of the string read: it returns the string,
or it meets the limit or an address that cannot be read, or a service refused a window. -/
theorem strncpyLoop_exact (hsound : mm.Sound) (hmm : w₀.mms.get? pid = some mm)
    (hbacks : w₀.Backs pid (w₀.userByte pid))
    (hout : ∀ x, (w₀.readable pid).BreaksAt a maxLen x → ¬ mm.Reserved x) (fuel : Nat) :
    ∀ (cursor : Nat) (out : List UInt8), cursor = a + out.length → out.length ≤ maxLen →
      maxLen ≤ out.length + fuel → 0 ∉ out → (w₀.readable pid).HoldsBytes a out →
      Triple (Session.Shows w₀ pid (w₀.userByte pid)) (strncpyLoop pid maxLen fuel cursor out)
        (fun bytes s => (w₀.readable pid).StringAt a maxLen bytes ∧
          s.Shows w₀ pid (w₀.userByte pid))
        (fun e s => (s.Marked ∨ (e = .messageTooLong ∧ (w₀.readable pid).TooLong a maxLen) ∨
          e = .invalidAddress ∧ ∃ x, (w₀.readable pid).BreaksAt a maxLen x) ∧
          w₀.Reads pid (w₀.userByte pid) s.1) := by
  induction fuel with
  | zero =>
    intro cursor out _ hle hfuel hne hholds
    exact Triple.throw fun s h => ⟨.inr (.inl ⟨rfl, out, by omega, hne, hholds⟩), h.2⟩
  | succ fuel ih =>
    intro cursor out hcursor hle hfuel hne hholds
    unfold strncpyLoop
    refine Triple.ite (fun hmore => ?_) fun hfull => ?_
    swap
    · exact Triple.throw fun s h => ⟨.inr (.inl ⟨rfl, out, by omega, hne, hholds⟩), h.2⟩
    -- an address without an entry to read from is where the scan breaks off
    have hbreak : ¬ mm.Allows Perms.R cursor → (w₀.readable pid).BreaksAt a maxLen cursor := by
      intro hnot
      exact ⟨out, hcursor, hmore, hne, hholds, World.readable_eq_none hsound hmm hnot⟩
    have hfree : ¬ mm.Reserved cursor := by
      intro hres
      by_cases hallows : mm.Allows Perms.R cursor
      · obtain ⟨k, m, hk, hin, -⟩ := hallows
        exact hsound.unreserved .mapped k m cursor hk hin hres
      · exact hout cursor (hbreak hallows) hres
    refine Triple.bind ((lookup_round hsound hmm hfree Perms.R).errors
      fun e s h => ⟨.inr (.inr ⟨h.1.1, cursor, hbreak h.1.2⟩), h.2.2⟩) fun m => ?_
    refine Triple.of_fact fun hentry => ?_
    obtain ⟨hm, hperms⟩ := hentry
    obtain ⟨hchunk, hstart, hsat⟩ := hsound.chunk hmm hm (Nat.sub_pos_of_lt hmore)
    dsimp only
    rw [hsat]
    generalize min (m.size - (cursor - m.vaddr)) (maxLen - out.length) = available at hchunk
    have hpos := hchunk.pos
    have hfits := hchunk.le
    rw [if_neg hpos.ne']
    refine Triple.bind ((window_round m Perms.R).errors
      fun e s h => ⟨.inl h.1, h.2⟩) fun scratch => ?_
    refine Triple.bind (R := fun bytes s => (bytes.length = available ∧
      (w₀.readable pid).HoldsBytes cursor bytes) ∧ s.Shows w₀ pid (w₀.userByte pid))
      (Triple.gets ?_) ?_
    · intro s h
      obtain ⟨⟨sc, hsc, hslot⟩, hshows⟩ := h
      have hlen : ((List.range available).map fun i =>
          s.1.scratchByte scratch (cursor - m.vaddr + i)).length = available := by
        rw [List.length_map, List.length_range]
      refine ⟨⟨hlen, World.readable_holds hsound hmm ?_ ?_⟩, hshows⟩
      · rw [hlen]
        exact hchunk.allowsAll hsound hmm hperms
      · exact hshows.window hbacks hchunk hstart hsc hslot
    intro bytes
    refine Triple.of_fact fun hread => ?_
    obtain ⟨hlen, hbytes⟩ := hread
    have htext : 0 ∉ bytes.takeWhile (· ≠ 0) := by
      intro hmem
      simpa using List.mem_takeWhile_imp hmem
    rw [hcursor] at hbytes
    refine Triple.ite (fun hnul => Triple.pure fun s h => ⟨?_, h⟩) ?_
    · -- the null byte is in this chunk
      obtain ⟨rest, hsplit⟩ := takeWhile_nul hnul
      refine ⟨?_, ?_, ?_⟩
      · rw [List.mem_append]
        exact fun hmem => hmem.elim hne htext
      · rw [List.length_append]
        omega
      · rw [List.append_assoc]
        refine hholds.append ?_
        rw [hsplit, ← List.singleton_append, ← List.append_assoc] at hbytes
        exact hbytes.left
    · -- there is none, and the scan goes on behind the chunk
      intro hnone
      have hall : bytes.takeWhile (· ≠ 0) = bytes :=
        (List.takeWhile_prefix _).eq_of_length_le (Nat.le_of_not_lt hnone)
      rw [hall] at htext
      refine ih _ _ ?_ ?_ ?_ ?_ (hholds.append hbytes)
      · rw [hcursor, List.length_append, hlen, Nat.add_assoc]
      · rw [List.length_append]
        omega
      · rw [List.length_append]
        omega
      · rw [List.mem_append]
        exact fun hmem => hmem.elim hne htext

/-- `strncpy_from_user`: the string, or one of the three reasons why there is none, or a service
refused a window. -/
theorem strncpyFromUser_exact (hsound : mm.Sound) (hmm : w₀.mms.get? pid = some mm)
    (hbacks : w₀.Backs pid (w₀.userByte pid))
    (hout : ∀ x, (w₀.readable pid).BreaksAt a maxLen x → ¬ mm.Reserved x) (ha : a ≠ 0)
    (hmax : 0 < maxLen) :
    Triple (Session.Shows w₀ pid (w₀.userByte pid)) (strncpyFromUser pid a maxLen)
      (fun str s => (w₀.readable pid).StringAt a maxLen (utf8 str) ∧
        s.Shows w₀ pid (w₀.userByte pid))
      (fun e s => s.Marked ∨ (e = .messageTooLong ∧ (w₀.readable pid).TooLong a maxLen) ∨
        (e = .invalidAddress ∧ ∃ x, (w₀.readable pid).BreaksAt a maxLen x) ∨
        e = .invalidArgs ∧ ∃ bytes, (w₀.readable pid).StringAt a maxLen bytes ∧
          ∀ str, utf8 str ≠ bytes) := by
  unfold strncpyFromUser
  rw [if_neg ha, if_neg hmax.ne']
  have hloop := strncpyLoop_exact hsound hmm hbacks hout maxLen a [] rfl (Nat.zero_le _)
    (by rw [List.length_nil]; omega) List.not_mem_nil trivial
  refine Triple.bind (hloop.errors ?_) ?_
  · intro e s h
    exact h.1.imp id fun h => h.imp id .inl
  · intro bytes
    refine Triple.getSome ?_ ?_
    · intro str s hstr h
      rw [fromUTF8?_eq_some.mp hstr]
      exact h
    · intro s hnone h
      refine .inr (.inr (.inr ⟨rfl, bytes, h.1, ?_⟩))
      intro str hstr
      rw [fromUTF8?_eq_some.mpr hstr] at hnone
      cases hnone

/-- A string that is there is returned, unless a service refuses a window. -/
theorem strncpyFromUser_reads (hsound : mm.Sound) (hmm : w₀.mms.get? pid = some mm)
    (hbacks : w₀.Backs pid (w₀.userByte pid)) (ha : a ≠ 0) {str : String}
    (hstr : (w₀.readable pid).StringAt a maxLen (utf8 str)) :
    Triple (Session.Shows w₀ pid (w₀.userByte pid)) (strncpyFromUser pid a maxLen)
      (fun str' s => str' = str ∧ s.Shows w₀ pid (w₀.userByte pid)) fun _ s => s.Marked := by
  have hread := strncpyFromUser_exact hsound hmm hbacks
    (fun x hbreaks => absurd hbreaks hstr.not_breaksAt) ha (Nat.zero_lt_of_lt hstr.short)
  refine hread.imp (fun _ h => h) (fun str' s h => ⟨?_, h.2⟩) ?_
  · have hbytes := h.1.unique hstr
    rw [utf8_eq, utf8_eq, Array.toList_inj] at hbytes
    exact String.toByteArray_inj.mp (ByteArray.ext hbytes)
  · intro e s h
    rcases h with hmark | ⟨-, hlong⟩ | ⟨-, x, hbreaks⟩ | ⟨-, bytes, hbytes, hinvalid⟩
    · exact hmark
    · exact absurd hlong hstr.not_tooLong
    · exact absurd hbreaks hstr.not_breaksAt
    · exact absurd (hstr.unique hbytes) (hinvalid str)

/-- A pointer that can be read is returned, unless a service refuses a window. -/
theorem readPointer_exact (hsound : mm.Sound) (hmm : w₀.mms.get? pid = some mm)
    (hbacks : w₀.Backs pid (w₀.userByte pid)) (ha : a ≠ 0) {v : Nat}
    (hv : (w₀.readable pid).word a = some v) :
    Triple (Session.Shows w₀ pid (w₀.userByte pid)) (sessionCopyFromUser pid a 8)
      (fun raw s => leNat raw = v ∧ s.Shows w₀ pid (w₀.userByte pid)) fun _ s => s.Marked := by
  obtain ⟨bs, hlen, hbs, hval⟩ := Memory.bytes_of_word hv
  obtain ⟨hall, hout⟩ := World.allowsAll_of_holds hsound hmm hbs
  rw [hlen] at hall hout
  refine (sessionCopyFromUser_exact hsound hmm hbacks hout).imp (fun _ h => h)
    (fun raw s h => ⟨?_, h.2⟩) ?_
  · -- both are the bytes of the address
    obtain ⟨⟨-, hlen', hraw⟩, -⟩ := h
    have hraw' := World.readable_holds hsound hmm (by rw [hlen']; exact hall) hraw
    have htake := hraw'.take_eq hbs (by omega)
    rw [hlen', ← hlen, List.take_length] at htake
    rw [← htake]
    exact hval
  · intro e s h
    exact h.1.resolve_right fun hnot => hnot.2 ⟨.inl ha, hall⟩

end Scan

/-! ### Arrays of strings -/

section Arrays

variable {w₀ : World} {mm : MmState} {pid : Nat}

/-- The loop of `read_user_string_array` from index `i` on, with `count` pointers allowed. The
pointers `ps` that are left lead to the strings `ss`. -/
theorem stringArrayLoop_reads (hsound : mm.Sound) (hmm : w₀.mms.get? pid = some mm)
    (hbacks : w₀.Backs pid (w₀.userByte pid)) {arr maxStrLen : Nat} (harr : arr ≠ 0) (count : Nat) :
    ∀ (i : Nat) (ps : List Nat) (ss out : List String), ps.length ≤ count → 0 ∉ ps →
      (w₀.readable pid).HoldsWords (arr + 8 * i) ps →
      (ps.length < count → (w₀.readable pid).word (arr + 8 * (i + ps.length)) = some 0) →
      List.Forall₂ (fun p str => (w₀.readable pid).StringAt p maxStrLen (utf8 str)) ps ss →
      Triple (Session.Shows w₀ pid (w₀.userByte pid))
        (stringArrayLoop pid arr maxStrLen (List.range' i count) out)
        (fun l s => (ps.length < count ∧ l = out ++ ss) ∧ s.Shows w₀ pid (w₀.userByte pid))
        (fun e s => s.Marked ∨ ps.length = count ∧ e = .messageTooLong) := by
  induction count with
  | zero =>
    intro i ps ss out hle _ _ _ _
    exact Triple.throw fun s h => .inr ⟨Nat.le_zero.mp hle, rfl⟩
  | succ count ih =>
    intro i ps ss out hle hne hwords hend hstrings
    -- the word that the round reads
    obtain ⟨v, hv⟩ : ∃ v, (w₀.readable pid).word (arr + 8 * i) = some v := by
      cases ps with
      | nil => exact ⟨0, hend (Nat.succ_pos _)⟩
      | cons p ps => exact ⟨p, hwords.1⟩
    have hadd : checkedAdd arr (i * 8) = some (arr + 8 * i) := by
      obtain ⟨bs, hlen, hbs, -⟩ := Memory.bytes_of_word hv
      have hfirst := (Memory.holdsBytes_iff _ _ bs).mp hbs 0 (by omega)
      obtain ⟨m, hm, -⟩ := Option.bind_eq_some_iff.mp hfirst
      have hlt := (World.lookup_within hm).2
      rw [checkedAdd, if_pos (by omega), Nat.mul_comm]
    rw [List.range'_succ]
    unfold stringArrayLoop
    rw [hadd, getSome_bind]
    refine Triple.bind ((readPointer_exact hsound hmm hbacks (by omega) hv).errors
      fun _ _ h => .inl h) fun raw => ?_
    refine Triple.of_fact fun hraw => ?_
    rw [hraw]
    cases hstrings with
    | nil =>
      -- the null pointer ends the array
      obtain rfl : 0 = v := Option.some.inj ((hend (Nat.succ_pos _)).symm.trans hv)
      rw [if_pos rfl]
      exact Triple.pure fun s h => ⟨⟨Nat.succ_pos _, (List.append_nil _).symm⟩, h⟩
    | @cons p str ps ss hstr hrest =>
      obtain rfl : p = v := Option.some.inj (hwords.1.symm.trans hv)
      rw [List.mem_cons, not_or] at hne
      rw [if_neg (Ne.symm hne.1)]
      refine Triple.bind ((strncpyFromUser_reads hsound hmm hbacks (Ne.symm hne.1) hstr).errors
        fun _ _ h => .inl h) fun str' => ?_
      refine Triple.of_fact fun hstr' => ?_
      rw [hstr']
      rw [List.length_cons] at hle hend
      have htail := ih (i + 1) ps ss (out ++ [str]) (by omega) hne.2 hwords.2 (fun hlt => ?_) hrest
      · refine htail.imp (fun _ h => h) ?_ ?_
        · intro l _ h
          rw [List.length_cons, h.1.2, List.append_assoc]
          exact ⟨⟨by omega, rfl⟩, h.2⟩
        · intro e s h
          rw [List.length_cons]
          exact h.imp id fun h => ⟨by omega, h.2⟩
      · have hlast := hend (by omega)
        rwa [show i + (ps.length + 1) = i + 1 + ps.length by omega] at hlast

end Arrays

/-! ### Whole reads -/

/-- What a read of the string at `a` returns, with `limit` bytes allowed. -/
structure StringRead (m : Memory) (a limit : Nat) (r : Except Err String) : Prop where
  ok_iff : ∀ str, r = .ok str ↔ m.StringAt a limit (utf8 str)
  messageTooLong_iff : r = .error .messageTooLong ↔ m.TooLong a limit
  invalidAddress_iff : r = .error .invalidAddress ↔ ∃ x, m.BreaksAt a limit x

section Reads

variable {s : Session} {mm : MmState} {pid : Nat}

/-- At the start a session shows the bytes of the process. -/
theorem Session.shows (hpool : PoolOk s) : s.Shows s.1 pid (s.1.userByte pid) :=
  ⟨hpool, .refl s.1 pid⟩

/-- When no window is refused, the outcome is the first thing that the scan meets. -/
theorem strncpyFromUser_stringRead (hinv : FrameInv s.1) (hpool : PoolOk s)
    (hmm : s.1.mms.get? pid = some mm) (hsound : mm.Sound) {a maxLen : Nat} (ha : a ≠ 0)
    (hmax : 0 < maxLen) (hout : ∀ x, (s.1.readable pid).BreaksAt a maxLen x → ¬ mm.Reserved x)
    (hserved : ((strncpyFromUser pid a maxLen).run s).2.1.refused = false) :
    StringRead (s.1.readable pid) a maxLen ((strncpyFromUser pid a maxLen).run s).1 := by
  have hbacks : s.1.Backs pid (s.1.userByte pid) := World.Backs.of_frames hinv
  obtain ⟨hok, herr⟩ := strncpyFromUser_exact hsound hmm hbacks hout ha hmax s (Session.shows hpool)
  -- nothing is refused in the session
  have hnot : ¬ Session.Marked ((strncpyFromUser pid a maxLen).run s).2 := by
    intro hmark
    exact absurd (hmark.symm.trans hserved) (by decide)
  refine ⟨fun str => ⟨fun hr => (hok str hr).1, fun hstr => ?_⟩, ⟨fun hr => ?_, fun hlong => ?_⟩,
    fun hr => ?_, fun hbreaks => ?_⟩
  · have hread := strncpyFromUser_reads hsound hmm hbacks ha hstr s (Session.shows hpool)
    cases hr : ((strncpyFromUser pid a maxLen).run s).1 with
    | ok str' => rw [(hread.1 str' hr).1]
    | error e => exact absurd (hread.2 e hr) hnot
  -- the other errors do not match
  · rcases (herr _ hr).resolve_left hnot with ⟨-, hlong⟩ | ⟨he, -⟩ | ⟨he, -⟩
    · exact hlong
    · cases he
    · cases he
  · cases hr : ((strncpyFromUser pid a maxLen).run s).1 with
    | ok str => exact absurd hlong (hok str hr).1.not_tooLong
    | error e =>
      rcases (herr e hr).resolve_left hnot with ⟨rfl, -⟩ | ⟨-, x, hbreaks⟩ | ⟨-, bytes, hbytes, -⟩
      · rfl
      · exact absurd hbreaks hlong.not_breaksAt
      · exact absurd hlong hbytes.not_tooLong
  · rcases (herr _ hr).resolve_left hnot with ⟨he, -⟩ | ⟨-, hbreaks⟩ | ⟨he, -⟩
    · cases he
    · exact hbreaks
    · cases he
  · obtain ⟨x, hbreaks⟩ := hbreaks
    cases hr : ((strncpyFromUser pid a maxLen).run s).1 with
    | ok str => exact absurd hbreaks (hok str hr).1.not_breaksAt
    | error e =>
      rcases (herr e hr).resolve_left hnot with ⟨-, hlong⟩ | ⟨rfl, -⟩ | ⟨-, bytes, hbytes, -⟩
      · exact absurd hbreaks hlong.not_breaksAt
      · rfl
      · exact absurd hbreaks hbytes.not_breaksAt

/-- When no window is refused, an array of pointers that lead to strings gives these strings if a
null pointer comes in time, and an error if the limit comes first. -/
theorem readUserStringArray_strings (hinv : FrameInv s.1) (hpool : PoolOk s)
    (hmm : s.1.mms.get? pid = some mm) (hsound : mm.Sound) {arr maxCount maxStrLen : Nat}
    {ps : List Nat} {ss : List String} (harr : arr ≠ 0) (hne : 0 ∉ ps)
    (hwords : (s.1.readable pid).HoldsWords arr ps)
    (hstrings : List.Forall₂
      (fun p str => (s.1.readable pid).StringAt p maxStrLen (utf8 str)) ps ss)
    (hserved : ((readUserStringArray pid arr maxCount maxStrLen).run s).2.1.refused = false) :
    (ps.length < maxCount → (s.1.readable pid).word (arr + 8 * ps.length) = some 0 →
      ((readUserStringArray pid arr maxCount maxStrLen).run s).1 = .ok ss) ∧
    (ps.length = maxCount →
      ((readUserStringArray pid arr maxCount maxStrLen).run s).1 = .error .messageTooLong) := by
  have hbacks : s.1.Backs pid (s.1.userByte pid) := World.Backs.of_frames hinv
  have hnot : ¬ Session.Marked ((readUserStringArray pid arr maxCount maxStrLen).run s).2 := by
    intro hmark
    exact absurd (hmark.symm.trans hserved) (by decide)
  -- the loop counts from zero
  have hrun : readUserStringArray pid arr maxCount maxStrLen
      = stringArrayLoop pid arr maxStrLen (List.range' 0 maxCount) [] := by
    rw [readUserStringArray, if_neg harr, List.range_eq_range']
  rw [hrun] at hnot ⊢
  constructor
  · intro hlt hend
    obtain ⟨hok, herr⟩ := stringArrayLoop_reads hsound hmm hbacks harr maxCount 0 ps
      ss [] hlt.le hne
      hwords (fun _ => by rwa [Nat.zero_add]) hstrings s (Session.shows hpool)
    cases hr : ((stringArrayLoop pid arr maxStrLen (List.range' 0 maxCount) []).run s).1 with
    | ok l => rw [(hok l hr).1.2, List.nil_append]
    | error e => exact absurd ((herr e hr).resolve_left hnot).1 hlt.ne
  · intro heq
    obtain ⟨hok, herr⟩ := stringArrayLoop_reads hsound hmm hbacks harr maxCount 0 ps
      ss [] heq.le hne
      hwords (fun hlt => absurd heq hlt.ne) hstrings s (Session.shows hpool)
    cases hr : ((stringArrayLoop pid arr maxStrLen (List.range' 0 maxCount) []).run s).1 with
    | ok l => exact absurd heq (hok l hr).1.1.ne
    | error e => rw [((herr e hr).resolve_left hnot).2]

/-- The strings that a process passes are read exactly, unless a service refuses a window. A string
is returned when it is there with its null byte and is shorter than the limit. It is too long when
there are as many bytes as the limit allows and none is null. The address is invalid when a byte
that cannot be read comes first, which is to lie outside of the part of the stack that has not
grown. An array gives the strings of its pointers up to the null pointer, and is too long when the
limit comes first. -/
theorem user_strings_exact (hinv : FrameInv s.1) (hpool : PoolOk s)
    (hmm : s.1.mms.get? pid = some mm) (hsound : mm.Sound) :
    (∀ a maxLen, a ≠ 0 → 0 < maxLen →
      (∀ x, (s.1.readable pid).BreaksAt a maxLen x → ¬ mm.Reserved x) →
      ((strncpyFromUser pid a maxLen).run s).2.1.refused = false →
      StringRead (s.1.readable pid) a maxLen ((strncpyFromUser pid a maxLen).run s).1) ∧
    (∀ arr maxCount maxStrLen ps ss, arr ≠ 0 → 0 ∉ ps → (s.1.readable pid).HoldsWords arr ps →
      List.Forall₂ (fun p str => (s.1.readable pid).StringAt p maxStrLen (utf8 str)) ps ss →
      ((readUserStringArray pid arr maxCount maxStrLen).run s).2.1.refused = false →
      (ps.length < maxCount → (s.1.readable pid).word (arr + 8 * ps.length) = some 0 →
        ((readUserStringArray pid arr maxCount maxStrLen).run s).1 = .ok ss) ∧
      (ps.length = maxCount →
        ((readUserStringArray pid arr maxCount maxStrLen).run s).1 = .error .messageTooLong)) := by
  constructor
  · intro a maxLen ha hmax hout hserved
    exact strncpyFromUser_stringRead hinv hpool hmm hsound ha hmax hout hserved
  · intro arr maxCount maxStrLen ps ss harr hne hwords hstrings hserved
    exact readUserStringArray_strings hinv hpool hmm hsound harr hne hwords hstrings hserved

end Reads

/-- A session of `init` that starts. -/
def samplePassing : Session := (sampleMapped, SharedPagePool.new)

/-- `init` has the bytes of `ELF` and a null byte in a page. With four bytes allowed the null byte
is the last of them, and with three the string is too long. Its `argv` has one pointer, to an empty
string. -/
theorem user_strings_exact_sampleMapped :
    ((strncpyFromUser 1 0x20000001 4).run samplePassing).1 = .ok "ELF" ∧
    ((strncpyFromUser 1 0x20000001 3).run samplePassing).1 = .error .messageTooLong ∧
    ((readUserStringArray 1 0x3fffff68 256 4096).run samplePassing).1 = .ok [""] := by
  obtain ⟨mm, hmm, hsound⟩ := @World.sound_of_check sampleMapped 1 (by decide +kernel)
  have hexact := @user_strings_exact samplePassing mm 1 sampleMapped_reachable.frameInv
    (PoolOk.new sampleMapped) hmm hsound
  have hstring : (sampleMapped.readable 1).StringAt 0x20000001 4 (utf8 "ELF") := by
    rw [show utf8 "ELF" = [69, 76, 70] by decide +kernel]
    refine ⟨by decide, by decide, ?_⟩
    rw [Memory.holdsBytes_iff]
    decide +kernel
  have hlong : (sampleMapped.readable 1).TooLong 0x20000001 3 := by
    refine ⟨[69, 76, 70], rfl, by decide, ?_⟩
    rw [Memory.holdsBytes_iff]
    decide +kernel
  refine ⟨?_, ?_, ?_⟩
  · exact ((hexact.1 0x20000001 4 (by decide) (by decide)
      (fun x hx => absurd hx hstring.not_breaksAt) (by decide +kernel)).ok_iff "ELF").mpr hstring
  · exact (hexact.1 0x20000001 3 (by decide) (by decide)
      (fun x hx => absurd hx hlong.not_breaksAt) (by decide +kernel)).messageTooLong_iff.mpr hlong
  · have hempty : (sampleMapped.readable 1).StringAt 0x3fffffff 4096 (utf8 "") := by
      rw [show utf8 "" = [] by decide +kernel]
      refine ⟨by decide, by decide, ?_⟩
      rw [Memory.holdsBytes_iff]
      decide +kernel
    exact (hexact.2 0x3fffff68 256 4096 [0x3fffffff] [""] (by decide) (by decide)
      ⟨by decide +kernel, trivial⟩ (.cons hempty .nil) (by decide +kernel)).1 (by decide)
      (by decide +kernel)

/-- A service that refuses the window makes the read of a string fail, although the string is
there. -/
theorem refused_window_fails_string :
    ¬ ∀ (s : Session) (mm : MmState) (pid a maxLen : Nat), FrameInv s.1 → PoolOk s →
      s.1.mms.get? pid = some mm → mm.Sound → a ≠ 0 → 0 < maxLen →
      (∀ x, (s.1.readable pid).BreaksAt a maxLen x → ¬ mm.Reserved x) →
      StringRead (s.1.readable pid) a maxLen ((strncpyFromUser pid a maxLen).run s).1 := by
  intro h
  let env : Nat → Ext := fun _ => ⟨some .outOfMemory, 0, fun _ => 0⟩
  obtain ⟨mm, hmm, hsound⟩ := @World.sound_of_check sampleMapped 1 (by decide +kernel)
  have hstring : ((sampleMapped.withEnv env).readable 1).StringAt 0x20000001 4 (utf8 "ELF") := by
    rw [show utf8 "ELF" = [69, 76, 70] by decide +kernel]
    refine ⟨by decide, by decide, ?_⟩
    rw [Memory.holdsBytes_iff]
    decide +kernel
  have hread := h (sampleMapped.withEnv env, SharedPagePool.new) mm 1 0x20000001 4
    sampleMapped_reachable.frameInv (PoolOk.new _) hmm hsound (by decide) (by decide)
    fun x hx => absurd hx hstring.not_breaksAt
  have hok := (hread.ok_iff "ELF").mpr hstring
  have herr : ((strncpyFromUser 1 0x20000001 4).run
      (sampleMapped.withEnv env, SharedPagePool.new)).1 = .error .outOfMemory := by
    decide +kernel
  rw [herr] at hok
  cases hok

end Ape
