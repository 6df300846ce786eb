import Ape.Proofs.Ioctl
import Ape.Proofs.Masks
import Ape.Proofs.UserStrings

/-!
# `Ape.Proofs.Polls`: what `ppoll` says and where it writes

A scan of `ppoll` goes through the array of the caller entry by entry: it reads an entry, asks
the service of the descriptor, and writes the entry back with the answer in its last two bytes.
Each round of the loop scans the whole array again, over what the last round wrote.

`withRevents` is the memory after a scan. The descriptors of the array stay, so a scan over a
scan finds the same entries, and what is left in the end is one scan over the memory at the
start. `ppoll_answers` says what the caller finds there, and that the descriptors stay. Which answer
of the services an entry got is a question of when it was asked: `World.askedAt` is the number of
that call in a scan, and `LastScan` says which scan of the call is the last one.
-/

set_option autoImplicit false

namespace Ape

open Ape.Lib Cmd

/-! ### The array -/

/-- The answer for one entry with the descriptor word `fd`: `revents`, and whether it counts. The
service of an open descriptor answers with `e`, of which 32 bits arrive. -/
inductive Polled (e : Ext) (fds : OrdMap Nat FileHandle) (fd : Nat) : Nat × Bool → Prop where
  | skipped : 2 ^ 31 ≤ fd → Polled e fds fd (0, false)
  | notOpen : fd < 2 ^ 31 → fds.contains fd = false → Polled e fds fd (POLLNVAL, true)
  | answered : fd < 2 ^ 31 → fds.contains fd = true → e.err = none →
      Polled e fds fd (e.val % 2 ^ 32 % 2 ^ 16, e.val % 2 ^ 32 != 0)

/-- The number of the service call that asks for entry `i` in a scan from `v`: the entries before it
have been scanned, and the entry has been read. -/
def World.askedAt (v : World) (pid a i : Nat) : Nat :=
  ((copyFromUser pid (a + 8 * i) 8).run ((pollScanLoop pid a (List.range i) 0).run v).2).2.tick

/-- The answers of the scan from `v` of the array at `a`, from entry `i` on. -/
def Answers (v : World) (pid : Nat) (fds : OrdMap Nat FileHandle) (m : Memory) (a i : Nat)
    (rs : List (Nat × Bool)) : Prop :=
  ∀ j r, rs[j]? = some r → ∃ word, word.length = 4 ∧ m.HoldsBytes (a + 8 * (i + j)) word ∧
    Polled (v.env (v.askedAt pid a (i + j))) fds (leNat word) r

/-- The scan from `v` is the last one of a call that goes from `w` to `w'`: it finds `ready`
entries, and after it at most the clock is asked. -/
structure LastScan (w : World) (pid a n : Nat) (v : World) (ready : Nat) (w' : World) : Prop where
  env : v.env = w.env
  run : ∃ v', (pollScanLoop pid a (List.range n) 0).run v = (.ok ready, v') ∧
    v'.tick ≤ w'.tick ∧ w'.tick ≤ v'.tick + 1

/-- The memory with the answers in the array at `a`. -/
def withRevents (m : Memory) (a : Nat) : List Nat → Memory
  | [] => m
  | r :: rs => withRevents (overlay m (a + 6) (leBytes 2 r)) (a + 8) rs

/-- Only `revents` of the `n` entries at `a` differ. -/
def OnlyRevents (m m' : Memory) (a n : Nat) : Prop :=
  ∀ x, m' x ≠ m x → ∃ i < n, x = a + 8 * i + 6 ∨ x = a + 8 * i + 7

section Memory

variable {m m' : Memory} {a : Nat}

/-- A store that misses the answers can come before them. -/
theorem overlay_withRevents {b : Nat} {src : List UInt8} (rs : List Nat)
    (hout : b + src.length ≤ a + 6) :
    overlay (withRevents m a rs) b src = withRevents (overlay m b src) a rs := by
  induction rs generalizing m a with
  | nil => rfl
  | cons r rs ih =>
    have hlen : (leBytes 2 r).length = 2 := length_leBytes 2 r
    have hswap : overlay (overlay m (a + 6) (leBytes 2 r)) b src =
        overlay (overlay m b src) (a + 6) (leBytes 2 r) := by
      funext x
      simp only [overlay, hlen]
      by_cases hx : a + 6 ≤ x ∧ x < a + 6 + 2
      · rw [if_neg (by omega), if_pos hx, if_pos hx]
      · rw [if_neg hx, if_neg hx]
    rw [withRevents, withRevents, ih (by omega), hswap]

/-- A scan stores over what the scan before it stored. -/
theorem withRevents_again {rs rs' : List Nat} (hlen : rs.length = rs'.length) :
    withRevents (withRevents m a rs) a rs' = withRevents m a rs' := by
  induction rs' generalizing m a rs with
  | nil => rw [List.length_eq_zero_iff.mp hlen]; rfl
  | cons r' rs' ih =>
    cases rs with
    | nil => cases hlen
    | cons r rs =>
      have hb : ∀ v, (leBytes 2 v).length = 2 := length_leBytes 2
      have hover : overlay (overlay m (a + 6) (leBytes 2 r)) (a + 6) (leBytes 2 r') =
          overlay m (a + 6) (leBytes 2 r') := by
        funext x
        simp only [overlay, hb]
        by_cases hx : a + 6 ≤ x ∧ x < a + 6 + 2
        · rw [if_pos hx, if_pos hx]
        · rw [if_neg hx, if_neg hx, if_neg hx]
      rw [withRevents, withRevents, withRevents, overlay_withRevents rs (by rw [hb]; omega), hover]
      exact ih (Nat.succ.inj hlen)

/-- What lies between the answers stays. -/
theorem holdsBytes_withRevents {b : Nat} {bs : List UInt8} (rs : List Nat)
    (hout : ∀ i < rs.length, b + bs.length ≤ a + 8 * i + 6 ∨ a + 8 * i + 8 ≤ b) :
    Memory.HoldsBytes (withRevents m a rs) b bs ↔ m.HoldsBytes b bs := by
  induction rs generalizing m a with
  | nil => rfl
  | cons r rs ih =>
    have hlen : (leBytes 2 r).length = 2 := length_leBytes 2 r
    have hhead := hout 0 (Nat.succ_pos _)
    rw [withRevents, ih fun i hi => ?_, holdsBytes_overlay (by omega)]
    have hnext := hout (i + 1) (Nat.succ_lt_succ hi)
    omega

/-- Changes of `revents` fields, one after the other. -/
theorem OnlyRevents.trans {m'' : Memory} {n : Nat} (h : OnlyRevents m m' a n)
    (h' : OnlyRevents m' m'' a n) : OnlyRevents m m'' a n := by
  intro x hx
  by_cases hmid : m' x = m x
  · exact h' x fun heq => hx (heq.trans hmid)
  · exact h x hmid

/-- The answers of a scan are in `revents` fields only. -/
theorem onlyRevents_withRevents (rs : List Nat) :
    OnlyRevents m (withRevents m a rs) a rs.length := by
  induction rs generalizing m a with
  | nil => exact fun x hx => absurd rfl hx
  | cons r rs ih =>
    have hlen : (leBytes 2 r).length = 2 := length_leBytes 2 r
    intro x hx
    by_cases hfirst : a + 6 ≤ x ∧ x < a + 8
    · exact ⟨0, Nat.succ_pos _, by omega⟩
    · have hover : overlay m (a + 6) (leBytes 2 r) x = m x := if_neg (by omega)
      have hrest : withRevents (overlay m (a + 6) (leBytes 2 r)) (a + 8) rs x ≠
          overlay m (a + 6) (leBytes 2 r) x := by
        rw [hover]
        exact hx
      obtain ⟨i, hi, hxi⟩ := ih x hrest
      exact ⟨i + 1, Nat.succ_lt_succ hi, by omega⟩

/-- The descriptor words are not where the answers go. -/
theorem answers_withRevents {v : World} {pid i : Nat} {fds : OrdMap Nat FileHandle}
    {rs : List (Nat × Bool)} (vs : List Nat) (k : Nat) :
    Answers v pid fds (withRevents m (a + 8 * k) vs) a i rs ↔ Answers v pid fds m a i rs := by
  have hword : ∀ j (word : List UInt8), word.length = 4 →
      (Memory.HoldsBytes (withRevents m (a + 8 * k) vs) (a + 8 * (i + j)) word ↔
        m.HoldsBytes (a + 8 * (i + j)) word) :=
    fun j word hlen => holdsBytes_withRevents vs fun i' _ => by omega
  refine forall₃_congr fun j r _ => exists_congr fun word => and_congr_right fun hlen => ?_
  rw [hword j word hlen]

end Memory

/-! ### One scan -/

/-- The descriptors of a process, and how the services behave. -/
def World.pollView (pid : Nat) (w : World) : Option FilesState × (Nat → Ext) :=
  (w.filesOf pid, w.env)

instance (pid : Nat) : BlindMemory (World.pollView pid) where
  tick _ _ := rfl
  slots _ _ := rfl
  ledger _ _ := rfl
  vspace w p _ := congrArg (·, w.env) (w.filesOf_modifyTask p pid fun _ => rfl)
  tables w p _ := congrArg (·, w.env) (w.filesOf_modifyTask p pid fun _ => rfl)
  scratch _ _ _ := rfl
  writeFrame _ _ _ := rfl
  frames _ _ _ := rfl
  refs _ _ := rfl
  doubleFree _ _ := rfl
  mm w p _ := congrArg (·, w.env) (w.filesOf_modifyTask p pid fun _ => rfl)
  fileMapLog _ _ := rfl

instance (pid : Nat) : BlindSignals (World.pollView pid) where
  signal w p _ := congrArg (·, w.env) (w.filesOf_modifyTask p pid fun _ => rfl)
  dropped _ _ := rfl
  missedIntr _ _ := rfl

/-- A poll of `pid` is at work: `pid` reads `m`, `files` are its descriptors, and the services
behave as before. -/
abbrev World.Polling (w₀ : World) (pid : Nat) (files : FilesState) (m : Memory) : World → Prop :=
  w₀.Serving pid (World.pollView pid) (some files, w₀.env) m

/-- What a scan that fails has stored. -/
def World.PolledPart (w₀ : World) (pid : Nat) (m : Memory) (a n : Nat) (w : World) : Prop :=
  ∃ m', OnlyRevents m m' a n ∧ w₀.Reads pid m' w

section Scan

variable {w₀ : World} {mm : MmState} {pid : Nat} {files : FilesState} {m : Memory}

/-- A command that leaves tables and frames leaves what a scan has stored so far. -/
theorem part_keeps {α : Type} {c : M α} {a n : Nat} (hread : Frames World.readView c) :
    Keeps (w₀.PolledPart pid m a n) c := by
  rintro w ⟨m', hm', hreads⟩
  exact ⟨m', hm', hreads.congr (hread w)⟩

/-- The answer for an entry is the one its descriptor gets: the next service call asks for it. -/
theorem pollRevents_polling (fd : Nat) {w₁ : World} (h₁ : w₀.Polling pid files m w₁) :
    Triple (fun w => w = w₁) (pollRevents pid fd)
      (fun r w => Polled (w₁.env w₁.tick) files.fds fd r ∧ w₀.Polling pid files m w)
      (fun _ => w₀.Polling pid files m) := by
  have hopen : ∀ t, w₁.task? pid = some t → t.files = files := by
    intro t ht
    have hfiles : w₁.filesOf pid = some files := congrArg Prod.fst h₁.view
    rw [World.filesOf, ht] at hfiles
    exact Option.some.inj hfiles
  have hstay : ∀ w, w = w₁ → w₀.Polling pid files m w := by
    rintro w rfl
    exact h₁
  unfold pollRevents
  refine Triple.ite (fun hneg => Triple.pure fun w h => ⟨.skipped hneg, hstay w h⟩) fun hpos => ?_
  refine Triple.bind ((getProcess_task pid).errors fun _ => hstay)
    fun t => Triple.of_pre fun w h => ?_
  obtain ⟨rfl, ht⟩ := h
  rw [hopen t ht]
  refine Triple.ite (fun hclosed => Triple.pure ?_) ?_
  · intro w' h
    rw [h]
    exact ⟨.notOpen (by omega) (by simpa using hclosed), h₁⟩
  -- the handle is there, and its service is asked
  intro hthere
  refine Triple.bind (R := fun a w' => ((w.env w.tick).err = none ∧
    a = (w.env w.tick).val % 2 ^ 32) ∧ w₀.Polling pid files m w') ?_ fun a => Triple.pure ?_
  · unfold pollFdOnce
    refine Triple.bind (R := fun _ w' => w' = w)
      ((getProcess_task pid).imp (fun _ h => h) (fun _ _ h => h.1) fun _ => hstay) fun t => ?_
    refine Triple.bind (R := fun _ w' => w' = w)
      (Triple.getSome (fun _ _ _ h => h) fun w' _ => hstay w') fun handle => ?_
    refine Triple.bind (R := fun answer w' => ((w.env w.tick).err = none ∧ answer = w.env w.tick) ∧
      w₀.Polling pid files m w') ?_ fun answer => Triple.pure ?_
    · rintro w' rfl
      have hkept : w₀.Polling pid files m (ext.run w').2 :=
        serving_keeps ext_frames ext_frames (ext_keeps (I := FrameInv)) w' h₁
      cases hanswer : (w'.env w'.tick).err with
      | some e =>
        rw [run_ext_error hanswer] at hkept ⊢
        exact ⟨fun a ha => (by cases ha), fun _ _ => hkept⟩
      | none =>
        rw [run_ext_ok hanswer] at hkept ⊢
        refine ⟨fun a ha => ?_, fun _ he => by cases he⟩
        cases ha
        exact ⟨⟨rfl, rfl⟩, hkept⟩
    · intro w' h
      rw [h.1.2]
      exact ⟨⟨h.1.1, rfl⟩, h.2⟩
  · intro w' h
    obtain ⟨⟨hok, rfl⟩, hpoll⟩ := h
    exact ⟨.answered (by omega) (by simpa using hthere) hok, hpoll⟩

/-- The answer of the first entry, and those of the others. -/
theorem Answers.cons {v : World} {a i : Nat} {raw : List UInt8} {r : Nat × Bool}
    {rs : List (Nat × Bool)} (hlen : raw.length = 8) (hraw : m.HoldsBytes (a + 8 * i) raw)
    (hr : Polled (v.env (v.askedAt pid a i)) files.fds (leNat (raw.take 4)) r)
    (hrs : Answers v pid files.fds m a (i + 1) rs) : Answers v pid files.fds m a i (r :: rs) := by
  intro j r' hj
  cases j with
  | zero =>
    cases hj
    refine ⟨raw.take 4, by rw [List.length_take, hlen]; rfl, ?_, hr⟩
    rw [← List.take_append_drop 4 raw] at hraw
    exact hraw.left
  | succ j =>
    obtain ⟨word, hword, hholds, hpolled⟩ := hrs j r' hj
    have hindex : i + 1 + j = i + (j + 1) := by omega
    rw [hindex] at hholds hpolled
    exact ⟨word, hword, hholds, hpolled⟩

/-- Before the first answer nothing was stored. -/
theorem World.Serving.part {a n : Nat} {w : World} (h : w₀.Polling pid files m w) :
    w₀.PolledPart pid m a n w := ⟨m, fun _ hx => absurd rfl hx, h.reads⟩

/-- What is stored after an answer was stored in `revents` fields only. -/
theorem World.PolledPart.after {m' : Memory} {a n : Nat} {w : World} (hm : OnlyRevents m m' a n)
    (h : w₀.PolledPart pid m' a n w) : w₀.PolledPart pid m a n w := by
  obtain ⟨m'', hm', hreads⟩ := h
  exact ⟨m'', hm.trans hm', hreads⟩

/-- Storing an entry back changes its answer only. -/
theorem overlay_entry {a : Nat} {raw : List UInt8} (r : Nat) (hlen : raw.length = 8)
    (hraw : m.HoldsBytes a raw) :
    overlay m a (raw.take 6 ++ leBytes 2 r) = withRevents m a [r] := by
  have hsix : (raw.take 6).length = 6 := by rw [List.length_take, hlen]; rfl
  have hheld : m.HoldsBytes a (raw.take 6) := by
    rw [← List.take_append_drop 6 raw] at hraw
    exact hraw.left
  rw [← overlay_overlay, overlay_held hheld, hsix]
  rfl

/-- So does storing a part of it. -/
theorem onlyRevents_entry {a i n : Nat} {raw : List UInt8} (r k : Nat) (hi : i < n)
    (hlen : raw.length = 8) (hraw : m.HoldsBytes (a + 8 * i) raw) :
    OnlyRevents m (overlay m (a + 8 * i) ((raw.take 6 ++ leBytes 2 r).take k)) a n := by
  intro x hx
  have hbytes : (leBytes 2 r).length = 2 := length_leBytes 2 r
  refine ⟨i, hi, ?_⟩
  by_contra hno
  refine hx ?_
  have hheld := (Memory.holdsBytes_iff m (a + 8 * i) raw).mp hraw
  unfold overlay
  split
  · rename_i hin
    simp only [List.length_take, List.length_append, hbytes, hlen] at hin
    have hsix : x - (a + 8 * i) < 6 := by omega
    have hbyte := hheld (x - (a + 8 * i)) (by omega)
    rw [Nat.add_sub_cancel' hin.1] at hbyte
    rw [hbyte, List.getElem?_take_of_lt (by omega), List.getElem?_append_left
      (by rw [List.length_take, hlen]; omega), List.getElem?_take_of_lt hsix,
      List.getElem?_eq_getElem (by omega)]
  · rfl

/-- The clock is one service call. -/
theorem monoNow_tick (w : World) : (monoNow.run w).2.tick = w.tick + 1 := by
  unfold monoNow
  cases hanswer : (w.env w.tick).err with
  | some e => rw [run_bind_error (run_ext_error hanswer)]
  | none =>
    rw [run_bind_ok (run_ext_ok hanswer)]
    rfl

/-- A scan of two parts of the array. -/
theorem pollScanLoop_append (pid a : Nat) (l l' : List Nat) (ready : Nat) :
    pollScanLoop pid a (l ++ l') ready =
      pollScanLoop pid a l ready >>= fun total => pollScanLoop pid a l' total := by
  induction l generalizing ready with
  | nil => rfl
  | cons i rest ih =>
    simp only [List.cons_append, pollScanLoop, bind_bind, ih]

/-- One entry: it is read, its descriptor is asked for an answer, and it is written back. -/
theorem pollEntry_polling (hsound : mm.Sound) (hmm : w₀.mms.get? pid = some mm) {a n i : Nat}
    (hout : ∀ x, a ≤ x → x < a + 8 * n → ¬ mm.Reserved x) (hi : i < n) (ready : Nat) {w₁ : World}
    (h₁ : w₀.Polling pid files m w₁) :
    Triple (fun w => w = w₁) (pollScanLoop pid a [i] ready)
      (fun total w => ∃ raw r, raw.length = 8 ∧ m.HoldsBytes (a + 8 * i) raw ∧
        Polled (w₁.env ((copyFromUser pid (a + 8 * i) 8).run w₁).2.tick) files.fds
          (leNat (raw.take 4)) r ∧ total = (if r.2 then ready + 1 else ready) ∧
        w₀.Polling pid files (withRevents m (a + 8 * i) [r.1]) w)
      (fun _ => w₀.PolledPart pid m a n) := by
  have hin : ∀ x, a + 8 * i ≤ x → x < a + 8 * i + 8 → ¬ mm.Reserved x :=
    fun x hx hlt => hout x (by omega) (by omega)
  rw [pollScanLoop]
  refine Triple.bind (R := fun p w => p = a + 8 * i ∧ w = w₁)
    (Triple.getSome (fun p w hp h => ⟨?_, h⟩) fun w _ h => by rw [h]; exact h₁.part) fun p => ?_
  · have hsum := checkedAdd_some hp
    omega
  refine Triple.of_fact fun hp => ?_
  subst hp
  -- the state in which the entry has been read
  have hread : Triple (fun w => w = w₁) (copyFromUser pid (a + 8 * i) 8)
      (fun raw w => (raw.length = 8 ∧ m.HoldsBytes (a + 8 * i) raw) ∧
        w₀.Polling pid files m w ∧ w = ((copyFromUser pid (a + 8 * i) 8).run w₁).2)
      (fun _ => w₀.PolledPart pid m a n) := by
    rintro w rfl
    obtain ⟨hok, herr⟩ := copyFromUser_serving hsound hmm hin w h₁
    constructor
    · intro raw hr
      exact ⟨(hok raw hr).1, (hok raw hr).2, rfl⟩
    · intro e he
      exact (herr e he).part
  refine Triple.bind hread fun raw => Triple.of_fact fun hraw => Triple.of_pre fun w₂ h₂ => ?_
  obtain ⟨hpoll₂, hstate⟩ := h₂
  have henv : w₂.env = w₁.env :=
    (congrArg Prod.snd hpoll₂.view).trans (congrArg Prod.snd h₁.view).symm
  refine Triple.bind ((pollRevents_polling (leNat (raw.take 4)) hpoll₂).errors
    fun _ _ h => h.part) fun r => Triple.of_fact fun hr => ?_
  have hsrc : (raw.take 6 ++ leBytes 2 r.1).length = 8 := by
    rw [List.length_append, List.length_take, hraw.1, length_leBytes]
    rfl
  refine Triple.bind (R := fun _ => w₀.Polling pid files (withRevents m (a + 8 * i) [r.1])) ?_
    fun _ => Triple.pure ?_
  · refine (copyToUser_serving hsound hmm (by rw [hsrc]; exact hin)).imp (fun _ h => h)
      (fun _ w h => ?_) fun e w h => ?_
    · rwa [overlay_entry r.1 hraw.1 hraw.2] at h
    · obtain ⟨c, hc⟩ := h
      exact ⟨_, onlyRevents_entry r.1 c (by omega) hraw.1 hraw.2, hc.reads⟩
  · intro w h
    rw [henv, hstate] at hr
    exact ⟨raw, r, hraw.1, hraw.2, hr, rfl, h⟩

/-- A scan from `v`, from the entry `i` on, by induction on the entries that are left: the entries
before `i` have been scanned. -/
theorem pollScanLoop_polling (hsound : mm.Sound) (hmm : w₀.mms.get? pid = some mm) {a n : Nat}
    (hout : ∀ x, a ≤ x → x < a + 8 * n → ¬ mm.Reserved x) {v : World} (hv : v.env = w₀.env)
    (k : Nat) :
    ∀ i ready m, i + k = n → Triple
      (fun w => w₀.Polling pid files m w ∧
        (pollScanLoop pid a (List.range i) 0).run v = (.ok ready, w))
      (pollScanLoop pid a (List.range' i k) ready)
      (fun total w => ∃ rs, rs.length = k ∧ Answers v pid files.fds m a i rs ∧
        total = ready + rs.countP (·.2) ∧
        w₀.Polling pid files (withRevents m (a + 8 * i) (rs.map (·.1))) w ∧
        (pollScanLoop pid a (List.range n) 0).run v = (.ok total, w))
      (fun _ => w₀.PolledPart pid m a n) := by
  induction k with
  | zero =>
    intro i ready m hi
    obtain rfl : i = n := by omega
    refine Triple.pure fun w h => ⟨[], rfl, ?_, rfl, h⟩
    intro j r hj
    cases hj
  | succ k ih =>
    intro i ready m hi
    have hrange : List.range' i (k + 1) = [i] ++ List.range' (i + 1) k := rfl
    rw [hrange, pollScanLoop_append]
    refine Triple.of_pre fun w₁ h₁ => ?_
    obtain ⟨hpoll₁, hprefix⟩ := h₁
    have henv : w₁.env = v.env := (congrArg Prod.snd hpoll₁.view).trans hv.symm
    have hasked : ((copyFromUser pid (a + 8 * i) 8).run w₁).2.tick = v.askedAt pid a i := by
      rw [World.askedAt, hprefix]
    -- the entry `i`, with the run that it is a part of
    have hentry : Triple (fun w => w = w₁) (pollScanLoop pid a [i] ready)
        (fun total w => ∃ raw r, raw.length = 8 ∧ m.HoldsBytes (a + 8 * i) raw ∧
          Polled (v.env (v.askedAt pid a i)) files.fds (leNat (raw.take 4)) r ∧
          total = (if r.2 then ready + 1 else ready) ∧
          w₀.Polling pid files (withRevents m (a + 8 * i) [r.1]) w ∧
          (pollScanLoop pid a (List.range (i + 1)) 0).run v = (.ok total, w))
        (fun _ => w₀.PolledPart pid m a n) := by
      rintro w rfl
      have hi' : i < n := by omega
      obtain ⟨hok, herr⟩ := pollEntry_polling hsound hmm hout hi' ready hpoll₁ w rfl
      refine ⟨?_, herr⟩
      intro total hr
      obtain ⟨raw, r, hlen, hholds, hpolled, htotal, hpoll⟩ := hok total hr
      rw [henv, hasked] at hpolled
      refine ⟨raw, r, hlen, hholds, hpolled, htotal, hpoll, ?_⟩
      rw [List.range_succ, pollScanLoop_append, run_bind_ok hprefix]
      exact Prod.ext hr rfl
    refine Triple.bind hentry fun total => Triple.of_pre fun w₂ h₂ => ?_
    obtain ⟨raw, r, hlen, hholds, hpolled, htotal, hpoll₂, hprefix₂⟩ := h₂
    -- the rest of the array, over the first answer
    refine (ih (i + 1) total (withRevents m (a + 8 * i) [r.1]) (by omega)).imp
      (fun w h => by rw [h]; exact ⟨hpoll₂, hprefix₂⟩) (fun total' w h => ?_) fun e w h => ?_
    · obtain ⟨rs, hlength, hans, hsum, hpoll, hrun⟩ := h
      refine ⟨r :: rs, by rw [List.length_cons, hlength], ?_, ?_, hpoll, hrun⟩
      · exact Answers.cons hlen hholds hpolled ((answers_withRevents [r.1] i).mp hans)
      · rw [hsum, htotal, List.countP_cons]
        by_cases hready : r.2 = true
        · rw [if_pos hready, if_pos hready]
          omega
        · rw [if_neg hready, if_neg hready]
          rfl
    · have hone : OnlyRevents m (withRevents m (a + 8 * i) [r.1]) a n := by
        rw [← overlay_entry r.1 hlen hholds, ← List.take_length (l := raw.take 6 ++ leBytes 2 r.1)]
        exact onlyRevents_entry r.1 _ (by omega) hlen hholds
      exact h.after hone

/-! ### The rounds -/

/-- A scan over `m'` stores and finds what a scan over `m` does. -/
structure SameArray (pid : Nat) (fds : OrdMap Nat FileHandle) (m m' : Memory) (a n : Nat) :
    Prop where
  stores : ∀ vs, vs.length = n → withRevents m' a vs = withRevents m a vs
  finds : ∀ v rs, Answers v pid fds m' a 0 rs ↔ Answers v pid fds m a 0 rs
  only : OnlyRevents m m' a n

/-- An array is the same as itself. -/
theorem SameArray.refl (a n : Nat) : SameArray pid files.fds m m a n :=
  ⟨fun _ _ => rfl, fun _ _ => Iff.rfl, fun _ hx => absurd rfl hx⟩

/-- After a round the array is still the same one. -/
theorem SameArray.round {m' : Memory} {a n : Nat} (h : SameArray pid files.fds m m' a n)
    {vs : List Nat} (hlen : vs.length = n) :
    SameArray pid files.fds m (withRevents m' a vs) a n where
  stores vs' hlen' := (withRevents_again (hlen.trans hlen'.symm)).trans (h.stores vs' hlen')
  finds v rs := (answers_withRevents vs 0).trans (h.finds v rs)
  only := by
    have hround := onlyRevents_withRevents (m := m') (a := a) vs
    rw [hlen] at hround
    exact h.only.trans hround

/-- What `ppoll` returns, by the number of entries that are ready. -/
def PollReturns (ready : Nat) (ret : Int) : Prop :=
  (0 < ready → ret = ready) ∧ (ready = 0 → ret = 0 ∨ ret = -EINTR)

/-- `ppoll` found the answers `rs` for the `n` entries at `a` in its last scan, the one from `v`,
stored them and returned `ret`. -/
structure PollDone (w₀ : World) (pid : Nat) (files : FilesState) (m : Memory) (a n : Nat)
    (ret : Int) (w : World) (v : World) (rs : List (Nat × Bool)) : Prop where
  all : rs.length = n
  last : LastScan w₀ pid a n v (rs.countP (·.2)) w
  answers : Answers v pid files.fds m a 0 rs
  stored : w₀.Polling pid files (withRevents m a (rs.map (·.1))) w
  returns : PollReturns (rs.countP (·.2)) ret

/-- The rounds of `ppoll`, by induction on their number. The memory before each of them has the
array of the memory at the start. -/
theorem ppollLoop_done (hsound : mm.Sound) (hmm : w₀.mms.get? pid = some mm) {a n : Nat}
    (hout : ∀ x, a ≤ x → x < a + 8 * n → ¬ mm.Reserved x) (deadline : Option Nat) (rounds : Nat) :
    ∀ m', SameArray pid files.fds m m' a n → Triple (w₀.Polling pid files m')
      (ppollLoop pid a n deadline rounds)
      (fun ret w => ∃ v rs, PollDone w₀ pid files m a n ret w v rs)
      (fun _ => w₀.PolledPart pid m a n) := by
  induction rounds with
  | zero => exact fun m' hm => Triple.throw fun w h => h.part.after hm.only
  | succ rounds ih =>
    intro m' hm
    unfold ppollLoop
    refine Triple.of_pre fun v hv => ?_
    have henv : v.env = w₀.env := congrArg Prod.snd hv.view
    have hscan : Triple (fun w => w = v) (pollScanLoop pid a (List.range n) 0)
        (fun total w => ∃ rs, rs.length = n ∧ Answers v pid files.fds m' a 0 rs ∧
          total = rs.countP (·.2) ∧ w₀.Polling pid files (withRevents m' a (rs.map (·.1))) w ∧
          (pollScanLoop pid a (List.range n) 0).run v = (.ok total, w))
        (fun _ => w₀.PolledPart pid m a n) := by
      rw [List.range_eq_range']
      refine (pollScanLoop_polling hsound hmm hout henv n 0 0 m' (Nat.zero_add n)).imp
        (fun w h => by rw [h]; exact ⟨hv, rfl⟩) (fun total w h => ?_) fun _ _ h => h.after hm.only
      obtain ⟨rs, hlen, hans, htotal, hpoll, hrun⟩ := h
      rw [Nat.mul_zero, Nat.add_zero] at hpoll
      rw [Nat.zero_add] at htotal
      rw [List.range_eq_range'] at hrun
      exact ⟨rs, hlen, hans, htotal, hpoll, hrun⟩
    refine Triple.bind hscan fun total => Triple.of_pre fun w₁ h₁ => ?_
    obtain ⟨rs, hlen, hans, htotal, hpoll, hrun⟩ := h₁
    rw [htotal] at hrun
    have hmap : (rs.map (·.1)).length = n := by rw [List.length_map, hlen]
    have hnext : SameArray pid files.fds m (withRevents m' a (rs.map (·.1))) a n := hm.round hmap
    -- a return after the scan, with at most the clock asked in between
    have hdone : ∀ ret w, PollReturns (rs.countP (·.2)) ret →
        w₀.Polling pid files (withRevents m' a (rs.map (·.1))) w →
        w₁.tick ≤ w.tick → w.tick ≤ w₁.tick + 1 →
          ∃ v rs, PollDone w₀ pid files m a n ret w v rs := by
      intro ret w hret hw hlo hhi
      rw [hm.stores _ hmap] at hw
      exact ⟨v, rs, hlen, ⟨henv, w₁, hrun, hlo, hhi⟩, (hm.finds v rs).mp hans, hw, hret⟩
    refine Triple.ite (fun hpos => Triple.pure ?_) ?_
    · intro w h
      subst h
      refine hdone _ w ⟨fun _ => by rw [htotal], fun hno => absurd hpos (by omega)⟩ hpoll le_rfl ?_
      exact Nat.le_succ _
    intro hzero
    have hnone : rs.countP (·.2) = 0 := by omega
    have hquiet : ∀ ret, (ret = 0 ∨ ret = -EINTR) → PollReturns (rs.countP (·.2)) ret :=
      fun ret hret => ⟨fun hsome => absurd hsome (by omega), fun _ => hret⟩
    refine Triple.bind (R := fun _ w => w = w₁) (Triple.gets fun _ h => h) fun signalled => ?_
    refine Triple.ite (fun _ => Triple.pure ?_) fun _ => ?_
    · intro w h
      subst h
      exact hdone _ w (hquiet _ (.inr rfl)) hpoll le_rfl (Nat.le_succ _)
    have hservice : ∀ {α : Type} (c : M α), Frames World.readView c →
      Frames (World.pollView pid) c →
        Keeps FrameInv c → Triple (w₀.Polling pid files (withRevents m' a (rs.map (·.1)))) c
          (fun _ => w₀.Polling pid files (withRevents m' a (rs.map (·.1))))
          (fun _ => w₀.PolledPart pid m a n) := fun _ hread hfiles hinv =>
      (serving_keeps hread hfiles hinv).triple.errors fun _ _ h => h.part.after hnext.only
    have hclock : Triple (fun w => w = w₁) monoNow
        (fun _ w => w₀.Polling pid files (withRevents m' a (rs.map (·.1))) w ∧
          w.tick = w₁.tick + 1) (fun _ => w₀.PolledPart pid m a n) := by
      rintro w rfl
      obtain ⟨hok, herr⟩ := hservice monoNow (by simp [monoNow]) (by simp [monoNow])
        (by simp) w hpoll
      exact ⟨fun now hr => ⟨hok now hr, monoNow_tick w⟩, herr⟩
    refine Triple.bind hclock fun now => ?_
    refine Triple.ite (fun _ => Triple.pure ?_) fun _ => ?_
    · intro w h
      exact hdone _ w (hquiet _ (.inl rfl)) h.1 (by omega) (by omega)
    · exact Triple.bind ((hservice ext ext_frames ext_frames ext_keeps).pre fun w h => h.1)
        fun _ => ih _ hnext

/-- The timeout is read before the first round. -/
theorem ppollBody_done (hsound : mm.Sound) (hmm : w₀.mms.get? pid = some mm) {a n timeout : Nat}
    (hout : ∀ x, a ≤ x → x < a + 8 * n → ¬ mm.Reserved x)
    (htime : timeout ≠ 0 → ∀ x, timeout ≤ x → x < timeout + 16 → ¬ mm.Reserved x) :
    Triple (w₀.Polling pid files m) (ppollBody pid a n timeout)
      (fun ret w => ∃ v rs, PollDone w₀ pid files m a n ret w v rs)
      (fun _ => w₀.PolledPart pid m a n) := by
  -- what the timeout is read from, and the clock, leave the poll as it is
  have hdeadline : Triple (w₀.Polling pid files m) (parsePollDeadline pid timeout)
      (fun _ => w₀.Polling pid files m) (fun _ => w₀.Polling pid files m) := by
    unfold parsePollDeadline readUserTimespec
    refine Triple.ite (fun _ => Triple.pure fun _ h => h) fun hne => ?_
    refine Triple.bind (R := fun _ => w₀.Polling pid files m) ?_ ?_
    · refine Triple.bind (copyFromUser_serving hsound hmm (htime hne)) fun raw => ?_
      exact Triple.pure fun w h => h.2
    intro ts
    refine Triple.bind (R := fun _ => w₀.Polling pid files m)
      (Triple.ofExcept (fun _ _ _ h => h) fun _ _ _ h => h) fun ns => ?_
    refine Triple.bind (R := fun _ => w₀.Polling pid files m) ?_ fun now => Triple.pure fun _ h => h
    exact (serving_keeps (by simp [monoNow]) (by simp [monoNow]) (by simp)).triple
  unfold ppollBody
  -- a timeout that cannot be read is an error of the call, before the first round
  refine Triple.bind (R := fun _ => w₀.Polling pid files m) (Triple.attempt hdeadline) fun r => ?_
  cases r with
  | error e => exact Triple.throw fun w h => h.part
  | ok deadline =>
    refine Triple.bind (R := fun _ => w₀.Polling pid files m) (Triple.gets fun _ h => h)
      fun rounds => ?_
    exact ppollLoop_done hsound hmm hout deadline rounds m (SameArray.refl a n)

/-- An empty array has an empty scan, and the call returns 0. -/
theorem PollDone.empty {w : World} (h : w₀.Polling pid files m w) (a : Nat) :
    PollDone w₀ pid files m a 0 0 w w [] := by
  have henv : w.env = w₀.env := congrArg Prod.snd h.view
  have hlast : LastScan w₀ pid a 0 w 0 w := ⟨henv, w, rfl, le_rfl, Nat.le_succ _⟩
  have hnone : Answers w pid files.fds m a 0 [] := fun j r hj => by cases hj
  have hreturns : PollReturns 0 0 := by
    refine ⟨?_, fun _ => .inl rfl⟩
    intro hpos
    exact absurd hpos (Nat.lt_irrefl 0)
  exact ⟨rfl, hlast, hnone, h, hreturns⟩

/-- The temporary mask is read from the caller, and the poll goes on as before. -/
theorem importSigset_polling (hsound : mm.Sound) (hmm : w₀.mms.get? pid = some mm) {ptr : Nat}
    (hout : ∀ x, ptr ≤ x → x < ptr + 8 → ¬ mm.Reserved x) (size : Nat) :
    Triple (w₀.Polling pid files m) (importSigset pid ptr size)
      (fun _ => w₀.Polling pid files m) (fun _ => w₀.Polling pid files m) := by
  unfold importSigset
  refine Triple.ite (fun _ => Triple.throw fun _ h => h) fun _ => ?_
  refine Triple.ite (fun _ => Triple.throw fun _ h => h) fun _ => ?_
  refine Triple.bind (copyFromUser_serving hsound hmm hout) fun raw => ?_
  exact Triple.pure fun w h => h.2

/-- A new mask of the caller leaves the poll where it is. -/
theorem modifySignal_polling (m : Memory) (f : SignalStruct → SignalStruct) :
    Keeps (w₀.Polling pid files m) (modifySignal pid f) := by
  have hread : Frames World.readView (modifySignal pid f) := modifySignal_frames pid f
  have hfiles : Frames (World.pollView pid) (modifySignal pid f) := modifySignal_frames pid f
  have hinv : Keeps FrameInv (modifySignal pid f) := (modifySignal_frames pid f).keepsProp
  exact serving_keeps hread hfiles hinv

/-- What the rounds found is kept while the mask is put back. -/
theorem restoreMask_polled {a n : Nat} (r : Except Err Int) (f : SignalStruct → SignalStruct) :
    Keeps (Triple.onOutcome (fun ret w => ∃ v rs, PollDone w₀ pid files m a n ret w v rs)
      (fun _ => w₀.PolledPart pid m a n) r) (modifySignal pid f) := by
  cases r with
  | error e => exact part_keeps (modifySignal_frames pid f)
  | ok ret =>
    intro w h
    obtain ⟨v, rs, hrs⟩ := h
    have hstored := modifySignal_polling (m := withRevents m a (rs.map (·.1))) f w hrs.stored
    -- a mask asks nothing, so the clock stands where the rounds left it
    have hlast : LastScan w₀ pid a n v (rs.countP (·.2)) ((modifySignal pid f).run w).2 :=
      ⟨hrs.last.env, hrs.last.run⟩
    exact ⟨v, rs, hrs.all, hlast, hrs.answers, hstored, hrs.returns⟩

/-- The call, with the mask set and put back around the rounds. -/
theorem doPpoll_done (hsound : mm.Sound) (hmm : w₀.mms.get? pid = some mm)
    {a n timeout sigmask size : Nat} (hout : ∀ x, a ≤ x → x < a + 8 * n → ¬ mm.Reserved x)
    (htime : timeout ≠ 0 → ∀ x, timeout ≤ x → x < timeout + 16 → ¬ mm.Reserved x)
    (hmask : sigmask ≠ 0 → ∀ x, sigmask ≤ x → x < sigmask + 8 → ¬ mm.Reserved x) :
    Triple (w₀.Polling pid files m) (doPpoll pid a n timeout sigmask size)
      (fun ret w => (sigmask ≠ 0 ∧ size ≠ 8 ∧ ret = -EINVAL ∧ w₀.Polling pid files m w) ∨
        ∃ v rs, PollDone w₀ pid files m a n ret w v rs)
      (fun _ => w₀.PolledPart pid m a n) := by
  have hbody : Triple (w₀.Polling pid files m) (ppollBody pid a n timeout)
      (fun ret w => ∃ v rs, PollDone w₀ pid files m a n ret w v rs)
      (fun _ => w₀.PolledPart pid m a n) := ppollBody_done hsound hmm hout htime
  unfold doPpoll
  refine Triple.ite ?_ fun _ => ?_
  · intro hempty
    subst hempty
    exact Triple.pure fun w h => .inr ⟨w, [], PollDone.empty h a⟩
  -- a null array, and one with too many entries
  refine Triple.ite (fun _ => Triple.throw fun w h => h.part) fun _ => ?_
  refine Triple.ite (fun _ => Triple.throw fun w h => h.part) fun _ => ?_
  -- no mask: the rounds alone
  refine Triple.ite (fun _ => ?_) ?_
  · exact hbody.post fun ret w h => .inr h
  -- a set of a wrong size is refused before the first scan
  intro hset
  refine Triple.ite ?_ fun _ => ?_
  · intro hsize
    have hwrong : size ≠ 8 := by simpa [hasValidSigsetSize] using hsize
    exact Triple.pure fun w h => .inl ⟨hset, hwrong, rfl, h⟩
  refine Triple.bind (R := fun _ => w₀.Polling pid files m) ?_ ?_
  · exact (getProcess_task pid).imp (fun _ h => h) (fun _ _ h => h.1) fun _ _ h => h.part
  intro task
  refine Triple.bind (R := fun _ => w₀.Polling pid files m) ?_ ?_
  · exact (importSigset_polling hsound hmm (hmask hset) size).errors fun _ _ h => h.part
  intro mask
  refine Triple.bind (R := fun _ => w₀.Polling pid files m) ?_ fun _ => ?_
  · exact (modifySignal_polling m _).triple.errors fun _ _ h => h.part
  -- the outcome of the rounds is held while the mask is put back, and returned after it
  refine Triple.bind (R := Triple.onOutcome
    (fun ret w => ∃ v rs, PollDone w₀ pid files m a n ret w v rs)
    fun _ => w₀.PolledPart pid m a n) (Triple.attempt hbody) fun r => ?_
  have hback : Keeps (Triple.onOutcome (fun ret w => ∃ v rs, PollDone w₀ pid files m a n ret w v rs)
      (fun _ => w₀.PolledPart pid m a n) r)
      (modifySignal pid (·.setBlocked task.signal.signalBlocked)) := restoreMask_polled r _
  refine Triple.bind (Total.triple (Total.modify _) hback.triple) fun _ => ?_
  refine Triple.ofExcept (fun ret w hr h => .inr ?_) ?_
  · rw [hr] at h
    exact h
  · intro e w hr h
    rw [hr] at h
    exact h

end Scan

/-- `ppoll` tells its caller what it found. Whatever its outcome is, the descriptors of the caller
stay, and in its memory only `revents` of the entries can change. When it returns, there is a last
scan, and each entry of the array has the answer that its descriptor got in it: for an open
descriptor, the low bits of what the services answered to the call that asked for the entry. The
value is the number of entries that are ready: all of them zero means the time is over or a signal
is there. Only a signal set of a wrong size is refused before the first scan. -/
theorem ppoll_answers {w w' : World} {pid a n timeout sigmask size : Nat} {files : FilesState}
    {r : Except Err Int} (harray : w.Buffer pid a (8 * n))
    (htime : timeout ≠ 0 → w.Buffer pid timeout 16) (hmask : sigmask ≠ 0 → w.Buffer pid sigmask 8)
    (hfiles : w.filesOf pid = some files)
    (hrun : (doPpoll pid a n timeout sigmask size).run w = (r, w')) :
    w'.filesOf pid = some files ∧
    (∃ m, OnlyRevents (w.userByte pid) m a n ∧ w.Reads pid m w') ∧
    ∀ ret, r = .ok ret →
      (sigmask ≠ 0 ∧ size ≠ 8 ∧ ret = -EINVAL ∧ w.Reads pid (w.userByte pid) w') ∨
      ∃ v rs, rs.length = n ∧ LastScan w pid a n v (rs.countP (·.2)) w' ∧
        Answers v pid files.fds (w.userByte pid) a 0 rs ∧
        w.Reads pid (withRevents (w.userByte pid) a (rs.map (·.1))) w' ∧
        PollReturns (rs.countP (·.2)) ret := by
  obtain ⟨mm, hmm, hsound, hout⟩ := harray.tables
  have hstart : w.Polling pid files (w.userByte pid) w :=
    ⟨harray.frames, .refl w pid, congrArg (·, w.env) hfiles⟩
  have hstays : Keeps (fun v => v.filesOf pid = some files)
    (doPpoll pid a n timeout sigmask size) :=
    doPpoll_keeps _ _ _ _ _
  obtain ⟨hok, herr⟩ := (doPpoll_done hsound hmm hout (fun hne => (htime hne).outside hmm)
    fun hne => (hmask hne).outside hmm : Triple _
      (doPpoll pid a n timeout sigmask size) _ _) w hstart
  have hkept := hstays w hfiles
  rw [hrun] at hok herr hkept
  refine ⟨hkept, ?_, ?_⟩
  -- the memory, on every outcome: `revents` of the array and nothing else
  · cases r with
    | error e => exact herr e rfl
    | ok ret =>
      rcases hok ret rfl with ⟨-, -, -, h⟩ | ⟨v, rs, h⟩
      · exact ⟨_, fun x hx => absurd rfl hx, h.reads⟩
      · refine ⟨_, ?_, h.stored.reads⟩
        have honly := onlyRevents_withRevents (m := w.userByte pid) (a := a) (rs.map (·.1))
        rwa [List.length_map, h.all] at honly
  · intro ret hret
    rcases hok ret hret with ⟨hset, hsize, hinval, h⟩ | ⟨v, rs, h⟩
    · exact .inl ⟨hset, hsize, hinval, h.reads⟩
    · exact .inr ⟨v, rs, h.all, h.last, h.answers, h.stored.reads, h.returns⟩

/-- `init` has an entry for a descriptor that is open, one for a descriptor that is not, and one
that is to be skipped. -/
def samplePolls : World := sampleBoot.after (.syscall 1 (.userWrite 0x3ffff800
  (leBytes 4 0 ++ [1, 0, 9, 9] ++ leBytes 4 99 ++ [1, 0, 9, 9] ++ leBytes 4 0xffffffff
    ++ [1, 0, 9, 9])))

/-- The frames of the sample are accounted for. -/
theorem samplePolls_frameInv : FrameInv samplePolls :=
  (sampleBoot_reachable.after (by decide +kernel)).frameInv

/-- `ppoll` on this array returns 2: the open descriptor gets the answer of its service, and the one
that is not open is invalid. -/
theorem ppoll_answers_samplePolls :
    ∃ files v, ∃ rs : List (Nat × Bool), samplePolls.filesOf 1 = some files ∧ rs.length = 3 ∧
      LastScan samplePolls 1 0x3ffff800 3 v 2
        ((doPpoll 1 0x3ffff800 3 0x3ffff900 0x3ffff908 8).run samplePolls).2 ∧
      Answers v 1 files.fds (samplePolls.userByte 1) 0x3ffff800 0 rs ∧
      ∀ x, ((doPpoll 1 0x3ffff800 3 0x3ffff900 0x3ffff908 8).run samplePolls).2.userByte 1 x =
        withRevents (samplePolls.userByte 1) 0x3ffff800 (rs.map (·.1)) x := by
  have hsome : (samplePolls.filesOf 1).isSome = true := by decide +kernel
  have hret : ((doPpoll 1 0x3ffff800 3 0x3ffff900 0x3ffff908 8).run samplePolls).1 = .ok 2 := by
    decide +kernel
  obtain ⟨files, hfiles⟩ := Option.isSome_iff_exists.mp hsome
  obtain ⟨-, -, hanswers⟩ := @ppoll_answers samplePolls _ 1 0x3ffff800 3 0x3ffff900 0x3ffff908 8 _ _
    (World.buffer_of_check samplePolls_frameInv (by decide +kernel))
    (fun _ => World.buffer_of_check samplePolls_frameInv (by decide +kernel))
    (fun _ => World.buffer_of_check samplePolls_frameInv (by decide +kernel)) hfiles rfl
  rcases hanswers 2 hret with ⟨-, hsize, -⟩ | ⟨v, rs, hlen, hlast, hans, hreads, hready, hnone⟩
  · exact absurd rfl hsize
  have hone : rs.countP (·.2) = 2 := by
    rcases Nat.eq_zero_or_pos (rs.countP (·.2)) with hzero | hpos
    · rcases hnone hzero with h | h <;> cases h
    · exact_mod_cast (hready hpos).symm
  rw [hone] at hlast
  exact ⟨files, v, rs, hfiles, hlen, hlast, hans, hreads.2.2⟩

end Ape
