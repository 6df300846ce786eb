import Ape.Proofs.ExecReset
import Ape.Proofs.HostileImages
import Ape.Proofs.InitStack
import Ape.Proofs.UserStrings

/-!
# `Ape.Proofs.ExecArgs`: the strings of `execve` reach the new program

`execve` reads three things from the old image: a path and two arrays of strings. Then the old
image is gone, the new one is loaded, and the strings are on its stack. What is loaded after the
stack page does not touch it: `setupInitialTls_page`.

`execve_passes_strings` follows the strings from the memory of the caller to the start of the new
program.
-/

set_option autoImplicit false

namespace Ape

open Ape.Lib Cmd

/-! ### What the caller passes -/

/-- The array at `arr` passes the strings `ss`: no array passes none, and otherwise its pointers up
to the null pointer lead to them. -/
def World.Passes (w : World) (pid arr : Nat) (ss : List String) : Prop :=
  (arr = 0 ∧ ss = []) ∨ (arr ≠ 0 ∧ ∃ ps, 0 ∉ ps ∧ (w.readable pid).HoldsWords arr ps ∧
    (w.readable pid).word (arr + 8 * ps.length) = some 0 ∧
    List.Forall₂ (fun p str => (w.readable pid).StringAt p USER_EXEC_STRING_MAX (utf8 str)) ps ss)

section Caller

variable {w : World} {mm : MmState} {pid arr : Nat} {ss : List String}

/-- A string that is passed ends at its first null byte. -/
theorem World.Passes.nulFree (h : w.Passes pid arr ss) : ∀ s ∈ ss, 0 ∉ utf8 s := by
  intro s hs
  rcases h with ⟨-, hnone⟩ | ⟨-, ps, -, -, -, hstrings⟩
  · rw [hnone] at hs
    cases hs
  · induction hstrings with
    | nil => cases hs
    | cons hstr _ ih =>
      rcases List.mem_cons.mp hs with heq | hs
      · rw [heq]
        exact hstr.nulFree
      · exact ih hs

/-- The strings of an array are read in order. -/
theorem readUserStringArray_passes (hsound : mm.Sound) (hmm : w.mms.get? pid = some mm)
    (hbacks : w.Backs pid (w.userByte pid)) (h : w.Passes pid arr ss) (count : Nat) :
    Triple (Session.Shows w pid (w.userByte pid))
      (readUserStringArray pid arr count USER_EXEC_STRING_MAX)
      (fun l s => l = ss ∧ s.Shows w pid (w.userByte pid)) fun _ _ => True := by
  unfold readUserStringArray
  rcases h with ⟨rfl, rfl⟩ | ⟨hne, ps, hps, hwords, hend, hstrings⟩
  · rw [if_pos rfl]
    exact Triple.pure fun s h => ⟨rfl, h⟩
  rw [if_neg hne, List.range_eq_range']
  by_cases hle : ps.length ≤ count
  · have hloop := stringArrayLoop_reads hsound hmm hbacks hne count 0 ps ss [] hle hps hwords
      (fun _ => by rwa [Nat.zero_add]) hstrings
    exact hloop.imp (fun _ h => h) (fun l s h => ⟨h.1.2, h.2⟩) fun _ _ _ => trivial
  · -- the limit comes before the null pointer
    have hlen : (ps.take count).length = count := by
      rw [List.length_take]
      omega
    have hfirst : (w.readable pid).HoldsWords arr (ps.take count) := by
      rw [← List.take_append_drop count ps] at hwords
      exact hwords.append.1
    have hloop := stringArrayLoop_reads hsound hmm hbacks hne count 0 (ps.take count)
      (ss.take count) [] hlen.le (fun h0 => hps (List.mem_of_mem_take h0)) hfirst
      (fun hlt => absurd hlt (by omega)) (List.forall₂_take count hstrings)
    exact hloop.imp (fun _ h => h) (fun l s h => absurd h.1.1 (by omega)) fun _ _ _ => trivial

instance : BlindScratch (fun _ : World => True) where
  tick _ _ := rfl
  slots _ _ := rfl
  scratch _ _ _ := rfl

/-- The three reads of one session, from any state of it: what is read is what the caller passes. -/
theorem execveStrings_reads {file argv envp : Nat} {path : String} {args env : List String}
    (hinv : FrameInv w) (hmm : w.mms.get? pid = some mm) (hsound : mm.Sound) (hfile : file ≠ 0)
    (hpath : (w.readable pid).StringAt file USER_PATH_MAX (utf8 path))
    (hargs : w.Passes pid argv args) (henv : w.Passes pid envp env) :
    Triple (Session.Shows w pid (w.userByte pid))
      (do
        let filename ← strncpyFromUser pid file USER_PATH_MAX
        let argv ← readUserStringArray pid argv USER_EXEC_ARGV_MAX USER_EXEC_STRING_MAX
        let envp ← readUserStringArray pid envp USER_EXEC_ENVP_MAX USER_EXEC_STRING_MAX
        pure (filename, argv, envp))
      (fun r _ => r = (path, args, env)) fun _ _ => True := by
  have hbacks : w.Backs pid (w.userByte pid) := World.Backs.of_frames hinv
  have hfilename := (strncpyFromUser_reads hsound hmm hbacks hfile hpath).errors
    fun _ _ _ => trivial
  have hargv := readUserStringArray_passes hsound hmm hbacks hargs USER_EXEC_ARGV_MAX
  have henvp := readUserStringArray_passes hsound hmm hbacks henv USER_EXEC_ENVP_MAX
  -- each read leaves the memory of the caller, so the next one starts where it did
  refine Triple.bind hfilename fun path' => Triple.of_fact fun hpath' => ?_
  refine Triple.bind hargv fun args' => Triple.of_fact fun hargs' => ?_
  refine Triple.bind henvp fun env' => Triple.of_fact fun henv' => ?_
  refine Triple.pure fun s _ => ?_
  rw [hpath', hargs', henv']

/-- When the three reads succeed, they give what the caller passes. -/
theorem parseExecveUserInput_reads {file argv envp : Nat} {path : String} {args env : List String}
    (hinv : FrameInv w) (hmm : w.mms.get? pid = some mm) (hsound : mm.Sound) (hfile : file ≠ 0)
    (hpath : (w.readable pid).StringAt file USER_PATH_MAX (utf8 path))
    (hargs : w.Passes pid argv args) (henv : w.Passes pid envp env) :
    Triple (fun v => v = w) (parseExecveUserInput pid file argv envp)
      (fun r _ => r = (path, args, env)) fun _ _ => True := by
  have hstrings := execveStrings_reads hinv hmm hsound hfile hpath hargs henv
  have hsession : Triple (fun s : Session => PoolOk s ∧ s.1 = w)
      (do
        let filename ← strncpyFromUser pid file USER_PATH_MAX
        let argv ← readUserStringArray pid argv USER_EXEC_ARGV_MAX USER_EXEC_STRING_MAX
        let envp ← readUserStringArray pid envp USER_EXEC_ENVP_MAX USER_EXEC_STRING_MAX
        pure (filename, argv, envp))
      (fun r _ => r = (path, args, env) ∧ True) fun _ s => (s.Marked ∨ True) ∧ True := by
    refine hstrings.imp ?_ (fun r s h => ⟨h, trivial⟩) fun _ _ _ => ?_
    · intro s h
      obtain ⟨hpool, heq⟩ := h
      rw [← heq]
      exact Session.shows hpool
    · exact ⟨.inr trivial, trivial⟩
  have hread := withUserSession_exact (P := (· = w)) (Q := (· = (path, args, env)))
    (G := fun _ => True) (R := fun _ => True) (F := fun _ => True) (fun _ _ => trivial) hsession
  exact hread.imp (fun _ h => h) (fun _ _ h => h.1) fun _ _ _ => trivial

end Caller

/-! ### What the new image is given -/

section Image

variable {pid base slot : Nat} {page : Nat → UInt8}

/-- A command that sees neither page tables nor frames keeps what is said of both. -/
theorem pages_step {α : Type} {c : M α} {P : PageTables → (Nat → Option Frame) → Prop}
    (hv : Frames World.vspaceOf c) (hf : Frames World.readView c) :
    Triple (fun w => P w.vspaceOf w.frames) c (fun _ w => P w.vspaceOf w.frames)
      fun _ _ => True := by
  have hkeep : Keeps (fun w : World => P w.vspaceOf w.frames) c := by
    intro w h
    have hframes : (c.run w).2.frames = w.frames := (hf.comp Prod.snd) w
    show P (c.run w).2.vspaceOf (c.run w).2.frames
    rw [hv w, hframes]
    exact h
  exact hkeep.triple.errors fun _ _ _ => trivial

/-- A command that leaves page tables and frames leaves the stack page. -/
theorem StackPage.step {α : Type} {c : M α} (hv : Frames World.vspaceOf c)
    (hf : Frames World.readView c) :
    Triple (StackPage pid base slot page) c (fun _ => StackPage pid base slot page)
      fun _ _ => True :=
  (StackPage.keeps hv (hf.comp Prod.snd)).triple.errors fun _ _ _ => trivial

/-- A new entry of a table leaves the page alone. -/
theorem StackPage.modifyMm {f : MmState → MmState} {q : Nat} :
    Triple (StackPage pid base slot page) (modifyMm q f) (fun _ => StackPage pid base slot page)
      fun _ _ => True :=
  (StackPage.keeps (by simp) fun _ => rfl).triple.errors fun _ _ _ => trivial

/-- The frame in `slot` is mapped at `base`, and is there to be filled. -/
def Mapped (pid base slot : Nat) (v : PageTables) (frames : Nat → Option Frame) : Prop :=
  (∃ vs, v pid = some vs ∧ vs (base / PGSIZE) = some ⟨slot, 0, Perms.RW⟩) ∧ (frames slot).isSome

/-- A frame that is mapped and has a scratch window gets its bytes. -/
theorem fillMapped_page {scratch : Nat} {E : Err → World → Prop} :
    Triple (fun w => Mapped pid base slot w.vspaceOf w.frames ∧
        w.scratch scratch = some ⟨slot, 1, Perms.RW⟩) (fillScratch scratch PGSIZE page)
      (fun _ w => StackPage pid base slot page w ∧ Mapped pid base slot w.vspaceOf w.frames ∧
        w.scratch scratch = some ⟨slot, 1, Perms.RW⟩) E :=
  (fillScratch_page page).imp (fun _ h => ⟨h.1.1, h.1.2, h.2⟩)
    (fun _ _ h => ⟨h.1, ⟨h.1.1, h.2.1⟩, h.2.2⟩) fun _ _ h => h.elim

/-- The stack page gets the start block that is computed for it. -/
theorem stackBody_page {argv envp : List (List UInt8)} {auxv : List (Nat × Nat)} :
    Triple (World.Live pid) (stackBody pid base argv envp auxv)
      (fun _ w => ∃ sp stores slot, initialStack base argv envp auxv = some (sp, stores) ∧
        StackPage pid base slot (storedByte stores) w) fun _ _ => True := by
  -- what a step is to keep: the process, and the frame of the page
  have hlive : ∀ {α : Type} {c : M α}, Frames (World.live pid) c → Keeps (World.Live pid) c :=
    fun hc => hc.keeps (· = true)
  have hframe : ∀ {α : Type} {c : M α} (slot : Nat), Frames World.readView c →
      Keeps (fun w => (w.frames slot).isSome) c :=
    fun slot hc => hc.keeps fun v => (v.2 slot).isSome
  unfold stackBody
  refine Triple.bind (((hlive (allocPageFrameNoCleanup_frames 1)).triple.and
    (allocPageFrameNoCleanup_frame 1)).imp (fun w h => ⟨h, trivial⟩) (fun _ _ h => h)
      fun _ _ _ => trivial) fun slot => ?_
  refine Triple.bind (((hlive (by simp)).triple.and (hframe slot (by simp)).triple).imp
    (fun w h => h) (fun _ _ h => h) fun _ _ _ => trivial) fun _ => ?_
  refine Triple.bind (((mapProcessFrame_mapped slot).and (hframe slot (by simp)).triple).imp
    (fun w h => h) (fun _ _ h => h) fun _ _ _ => trivial) fun _ => ?_
  refine Triple.bind (((pages_step (P := Mapped pid base slot) (by simp) (by simp)).and
    (mapScratch_names slot Perms.RW 1)).imp (fun w h => ⟨h, trivial⟩) (fun _ _ h => h)
      fun _ _ _ => trivial) fun scratch => ?_
  refine Triple.bind fillMapped_page fun _ => ?_
  -- the layout is computed from the arguments, or the call has failed
  refine Triple.bind (R := fun r w => initialStack base argv envp auxv = some r ∧
    Mapped pid base slot w.vspaceOf w.frames ∧ w.scratch scratch = some ⟨slot, 1, Perms.RW⟩)
    (Triple.getSome (fun _ w hsome h => ⟨hsome, h.2⟩) fun _ _ _ => trivial) fun r => ?_
  refine Triple.of_fact fun hsome => ?_
  refine Triple.bind fillMapped_page fun _ => ?_
  -- the unmap and the records that follow leave the page as it is
  refine Triple.bind ((StackPage.step (by simp) (by simp)).pre fun w h => h.1) fun _ => ?_
  refine Triple.bind (StackPage.step (by simp) (by simp)) fun _ => ?_
  refine Triple.bind StackPage.modifyMm fun _ => ?_
  exact Triple.pure fun w h => ⟨r.1, r.2, slot, hsome, h⟩

/-- Another frame is allocated in another slot. -/
theorem allocPageFrameNoCleanup_page (pages : Nat) :
    Triple (StackPage pid base slot page) (allocPageFrameNoCleanup pages)
      (fun new w => new ≠ slot ∧ StackPage pid base slot page w) fun _ _ => True := by
  unfold allocPageFrameNoCleanup
  refine Triple.bind (R := fun new w => new ≠ slot ∧ StackPage pid base slot page w) ?_ ?_
  · refine ((StackPage.step (by simp) cspaceAlloc_frames).and cspaceAlloc_frameless).imp
      (fun w h => ⟨h, trivial⟩) (fun new w h => ⟨?_, h.1⟩) fun _ _ _ => trivial
    rintro rfl
    obtain ⟨⟨-, f, hf, -⟩, -, hnone⟩ := h
    rw [hnone] at hf
    cases hf
  intro new
  refine Triple.of_fact fun hne => ?_
  refine Triple.bind (R := fun _ => StackPage pid base slot page) ?_ fun _ =>
    Triple.pure fun w h => ⟨hne, h⟩
  refine Triple.bind (R := fun _ => StackPage pid base slot page) ?_ fun a =>
    Triple.modify fun w h => ⟨h.1, ?_⟩
  · exact StackPage.step ext_frames ext_frames
  · obtain ⟨f, hf, hbytes⟩ := h.2
    exact ⟨f, (if_neg hne.symm).trans hf, hbytes⟩

/-- Other pages are mapped. -/
theorem mapProcessFrame_page {new vaddr pages : Nat} {perms : Perms}
    (hout : ¬ (vaddr / PGSIZE ≤ base / PGSIZE ∧ base / PGSIZE < vaddr / PGSIZE + pages)) :
    Triple (StackPage pid base slot page) (mapProcessFrame pid new vaddr perms pages)
      (fun _ => StackPage pid base slot page) fun _ _ => True := by
  refine Triple.of_pre fun w₀ h₀ => ?_
  obtain ⟨⟨vs, hvs, hpte⟩, f, hf, hbytes⟩ := h₀
  have hframes : Keeps (fun w => w.frames slot = some f)
      (mapProcessFrame pid new vaddr perms pages) :=
    ((mapProcessFrame_frames (V := World.readView) _ _ _ _ _).comp Prod.snd).keeps (· slot = some f)
  refine ((mapProcessFrame_tables (v := w₀.vspaceOf) pid new vaddr perms pages).and
    hframes.triple).imp ?_ ?_ fun _ _ _ => trivial
  · intro w hw
    rw [hw]
    exact ⟨rfl, hf⟩
  · intro _ w hw
    refine ⟨⟨vs.map new vaddr perms pages, ?_, ?_⟩, f, hw.2, hbytes⟩
    · rw [show w.vspaceOf = _ from hw.1, PageTables.edit, if_pos rfl, hvs]
      rfl
    · rw [VSpace.map, if_neg hout, hpte]

/-- The TLS pages of a layout, from the first address on. -/
def Layout.tlsStart (l : Layout) : Nat :=
  l.utcbVa - INITIAL_TLS_GAP_PAGES * PGSIZE - INITIAL_TLS_PAGES * PGSIZE

/-- The TLS pages are not the last page of the stack. -/
def Layout.TlsApart (l : Layout) : Prop :=
  l.stackBase ≤ l.tlsStart ∨ l.tlsStart + INITIAL_TLS_PAGES * PGSIZE ≤ l.stackBase - PGSIZE

/-- The TLS pages leave the stack page alone. -/
theorem setupInitialTls_page {l : Layout} (hapart : l.TlsApart)
    (htop : l.stackBase = base + PGSIZE) :
    Triple (fun w => w.layout = l ∧ StackPage pid base slot page w) (setupInitialTls pid)
      (fun _ => StackPage pid base slot page) fun _ _ => True := by
  -- the page of the stack is none of the pages of the thread block
  have hout : ¬ (l.tlsStart / PGSIZE ≤ base / PGSIZE ∧
      base / PGSIZE < l.tlsStart / PGSIZE + INITIAL_TLS_PAGES) := by
    unfold Layout.TlsApart at hapart
    unfold INITIAL_TLS_PAGES PGSIZE at *
    omega
  unfold setupInitialTls
  refine Triple.bind (R := fun l' w => l' = l ∧ StackPage pid base slot page w)
    (Triple.gets fun w h => h) fun l' => Triple.of_fact fun hl => ?_
  subst hl
  refine Triple.bind (allocPageFrameNoCleanup_page _) fun new => Triple.of_fact fun hne => ?_
  refine Triple.bind (StackPage.step (by simp) (by simp)) fun _ => ?_
  refine Triple.bind (mapProcessFrame_page hout) fun _ => ?_
  refine Triple.bind (((StackPage.step (by simp) (by simp)).and
    (mapScratch_names new Perms.RW INITIAL_TLS_PAGES)).imp (fun w h => ⟨h, trivial⟩)
      (fun _ _ h => h) fun _ _ _ => trivial) fun scratch => ?_
  refine Triple.bind (R := fun _ => StackPage pid base slot page) (Triple.modify ?_) fun _ => ?_
  · -- the bytes go to the new frame
    intro w h
    obtain ⟨⟨hmapped, f, hf, hbytes⟩, hscratch⟩ := h
    rw [hscratch]
    exact ⟨hmapped, f, (w.frames_writeFrame_ne _ hne.symm).trans hf, hbytes⟩
  refine Triple.bind (StackPage.step (by simp) (by simp)) fun _ => ?_
  refine Triple.bind (StackPage.step (by simp) (by simp)) fun _ => ?_
  exact Triple.bind StackPage.modifyMm fun _ => Triple.pure fun _ h => h

end Image

/-! ### What the new program finds -/

/-- The auxiliary vector of an image and its interpreter. -/
def imageAuxv (d : ElfImage) (interp : Option (Nat × Nat)) : List (Nat × Nat) :=
  [(AT_PHDR, (d.info 0).phdrVaddr), (AT_PHENT, d.phEntrySize), (AT_PHNUM, d.phNum),
    (AT_PAGESZ, PGSIZE), (AT_BASE, (interp.map (·.1)).getD 0), (AT_ENTRY, (d.info 0).entry)]

/-- A program that starts at the stack pointer `sp`, which is the one that is computed for it, finds
its arguments, its environment and its pairs. The strings do not overlap. -/
structure World.StartsAt (w : World) (pid : Nat) (args env : List (List UInt8))
    (auxv : List (Nat × Nat)) (sp : Nat) : Prop where
  computed : ∃ o stores,
    initialStack (w.layout.stackBase - PGSIZE) args env auxv = some (o, stores) ∧
    sp = w.layout.stackBase - PGSIZE + o
  aligned : sp % 16 = 0
  found : ∃ argvAt envpAt,
    (∀ fuel, PGSIZE ≤ fuel → (w.loadedByte pid).startBlock fuel sp =
      some ⟨args.length, argvAt, args, envpAt, env, auxv⟩) ∧
    StringsApart sp (startWords args env auxv) w.layout.stackBase (argvAt ++ envpAt) (args ++ env)

section Program

variable {pid : Nat} {l : Layout} {d : ElfImage}

/-- The page has the start block. -/
theorem StackPage.startsAt {w : World} {base slot sp : Nat} {args env : List (List UInt8)}
    {auxv : List (Nat × Nat)} {stores : List (Nat × List UInt8)}
    (htop : w.layout.stackBase = base + PGSIZE) (hbase : base % PGSIZE = 0) (hpos : 0 < base)
    (hcomputed : initialStack base args env auxv = some (sp, stores))
    (hpage : StackPage pid base slot (storedByte stores) w) (hargs : ∀ s ∈ args, 0 ∉ s)
    (henv : ∀ s ∈ env, 0 ∉ s) (hkeys : ∀ kv ∈ auxv, kv.1 ≠ 0)
    (hauxv : ∀ kv ∈ auxv, kv.1 < usizeMod ∧ kv.2 < usizeMod) :
    w.StartsAt pid args env auxv (base + sp) := by
  have hsub : w.layout.stackBase - PGSIZE = base := Nat.sub_eq_of_eq_add htop
  have hbelow := w.layout.stack_below
  rw [htop] at hbelow
  -- the layout succeeded, so its rows are those of the block
  rcases initialStack_cases base args env auxv with
    ⟨-, hnone⟩ | ⟨-, sp', argvAt, envpAt, hrows, hsome⟩
  · rw [hnone] at hcomputed
    cases hcomputed
  rw [hsome] at hcomputed
  cases hcomputed
  have hnul : ∀ ss : List (List UInt8), (∀ s ∈ ss, 0 ∉ s) →
      ss.map (fun s => s.takeWhile (· ≠ 0)) = ss := by
    intro ss hss
    conv_rhs => rw [← List.map_id ss]
    exact List.map_congr_left fun s hs => takeWhile_of_nulFree (hss s hs)
  -- the stack pointer, the block that a program reads there, and where the strings are
  refine ⟨⟨sp, _, by rw [hsub]; exact hsome, by rw [hsub]⟩, ?_, argvAt.map (base + ·.1),
    envpAt.map (base + ·.1), fun fuel hfuel => ?_, ?_⟩
  · have haligned := hrows.aligned
    unfold PGSIZE at hbase
    omega
  · have hblock := hrows.startBlock (hpage.holdsPage hbase) hpos hbelow.le hkeys hauxv hfuel
    rwa [hnul args hargs, hnul env henv] at hblock
  · rw [htop]
    exact hrows.stringsApart

/-- The values of the auxiliary vector are words. -/
theorem imageAuxv_words {interp : Option (Nat × Nat)}
    (hbase : ∀ p, interp = some p → p.1 < usizeMod) :
    ∀ kv ∈ imageAuxv d interp, kv.1 ≠ 0 ∧ kv.1 < usizeMod ∧ kv.2 < usizeMod := by
  have hword : ∀ a b, wAdd a b < usizeMod := fun a b => Nat.mod_lt _ (by decide)
  -- the sum of the header's address wraps, and the other values are shorter than a word
  have hfold : ∀ (phs : List Phdr) (acc : Nat), acc < usizeMod → phs.foldl
      (fun acc ph => if ph.pType = PT_PHDR then wAdd 0 ph.pVaddr else acc) acc < usizeMod := by
    intro phs
    induction phs with
    | nil => exact fun acc h => h
    | cons ph phs ih =>
      intro acc h
      refine ih (if ph.pType = PT_PHDR then wAdd 0 ph.pVaddr else acc) ?_
      split
      · exact hword _ _
      · exact h
  have hhalf : ∀ off, d.word off 2 < usizeMod :=
    fun off => Nat.lt_trans (d.word_lt off 2) (by decide)
  have hinterp : (interp.map (·.1)).getD 0 < usizeMod := by
    cases interp with
    | none => decide
    | some p => exact hbase p rfl
  have hkeys : ∀ k ∈ [AT_PHDR, AT_PHENT, AT_PHNUM, AT_PAGESZ, AT_BASE, AT_ENTRY],
      k ≠ 0 ∧ k < usizeMod := by decide
  intro kv hkv
  obtain ⟨hne, hlt⟩ := hkeys kv.1 (List.mem_map_of_mem hkv)
  refine ⟨hne, hlt, ?_⟩
  simp only [imageAuxv, List.mem_cons, List.not_mem_nil, or_false] at hkv
  rcases hkv with rfl | rfl | rfl | rfl | rfl | rfl
  · exact hfold _ _ (hword _ _)
  · exact hhalf _
  · exact hhalf _
  · show PGSIZE < usizeMod
    decide
  · exact hinterp
  · exact hword _ _

/-- An interpreter is loaded at an address. -/
theorem loadInterpreter_base (main : LoadedElfInfo) (interp : Option String) :
    Triple (fun w => w.layout = l) (loadInterpreter pid main interp)
      (fun r w => (∀ p, r = some p → p.1 < usizeMod) ∧ w.layout = l) fun _ _ => True := by
  have hstep : ∀ {α : Type} {c : M α}, Frames World.layout c →
      Triple (fun w => w.layout = l) c (fun _ w => w.layout = l) fun _ _ => True :=
    fun hc => (hc.keeps (· = l)).triple.errors fun _ _ _ => trivial
  unfold loadInterpreter
  cases interp with
  | none => exact Triple.pure fun w h => ⟨fun p hp => (by cases hp), h⟩
  | some name =>
    refine Triple.bind (hstep readExecImageFromFs_frames) fun d => ?_
    refine Triple.bind (hstep (loadElfIntoProcess_frames _ _ _)) fun info => ?_
    refine Triple.pure fun w h => ⟨?_, h⟩
    intro p hp
    cases hp
    exact Nat.lt_of_le_of_lt (Nat.div_mul_le_self _ _) (Nat.mod_lt _ (by decide))

/-- The start block is set up, on the last page of the stack. -/
theorem setupInitialStack_page {base : Nat} (htop : l.stackBase = base + PGSIZE) (path : String)
    (argv envp : List String) (auxv : List (Nat × Nat)) :
    Triple (fun w => w.layout = l ∧ w.Live pid) (setupInitialStack pid path argv envp auxv)
      (fun _ w => w.layout = l ∧ ∃ sp stores slot,
        initialStack base (startArgs path argv) (envp.map utf8) auxv = some (sp, stores) ∧
        StackPage pid base slot (storedByte stores) w) fun _ _ => True := by
  have hlayout : Keeps (fun w => w.layout = l) (setupInitialStack pid path argv envp auxv) :=
    (setupInitialStack_frames (V := World.layout) pid path argv envp auxv).keeps (· = l)
  refine (hlayout.triple.and (K := fun w => w.layout = l ∧ w.Live pid) (F := fun _ _ => True)
    ?_).imp (fun w h => ⟨h.1, h⟩) (fun _ w h => h) fun _ _ _ => trivial
  rw [setupInitialStack_eq]
  refine Triple.bind (R := fun l' w => l' = l ∧ w.Live pid) (Triple.gets fun w h => h) fun l' => ?_
  refine Triple.of_fact (P := World.Live pid) fun hl => ?_
  rw [hl, Nat.sub_eq_of_eq_add htop]
  exact stackBody_page

instance : BlindFiles World.layout where
  files _ _ _ := rfl
  cloexecLog _ _ := rfl
  positionSplit _ _ := rfl
  endpoints _ _ := rfl
  doubleClose _ _ := rfl
  asyncFree _ _ := rfl
  asyncRegions _ _ := rfl
  asyncVaddr _ _ := rfl
  iouring _ _ := rfl
  fdOverflow _ _ := rfl
  earlyRecycle _ _ := rfl

instance : BlindControl World.layout where
  tick _ _ := rfl
  slots _ _ := rfl
  trace _ _ := rfl
  signal _ _ _ := rfl
  dropped _ _ := rfl
  missedIntr _ _ := rfl
  record _ _ _ _ := rfl
  hostPidMap _ _ := rfl
  stale _ _ := rfl
  stopLog _ _ := rfl
  stopSkewed _ _ := rfl
  childEvents _ _ := rfl
  pendingWaits _ _ := rfl
  lifecycle _ _ := rfl
  missedWake _ _ := rfl
  waited _ _ := rfl
  leftEvents _ _ := rfl
  pendingSleeps _ _ := rfl
  requestId _ _ := rfl
  idSaturated _ _ := rfl
  sleepLog _ _ := rfl
  caller _ _ := rfl

instance : BlindTrace World.readView where
  trace _ _ := rfl

/-- The new image is loaded, and its program can start. -/
theorem loadImage_starts {path : String} {argv envp : List String} (hapart : l.TlsApart)
    (hargs : ∀ s ∈ startArgs path argv, 0 ∉ s) (henv : ∀ s ∈ envp, 0 ∉ utf8 s) :
    Triple (fun w => w.layout = l) (loadImage pid path argv envp d)
      (fun _ w => ∃ interp sp, w.StartsAt pid (startArgs path argv) (envp.map utf8)
        (imageAuxv d interp) sp) fun _ _ => True := by
  obtain ⟨base, htop, hbase, hpos⟩ := l.stackPage
  have hstep : ∀ {α : Type} {c : M α}, Frames World.layout c →
      Triple (fun w => w.layout = l) c (fun _ w => w.layout = l) fun _ _ => True :=
    fun hc => (hc.keeps (· = l)).triple.errors fun _ _ _ => trivial
  have henv' : ∀ s ∈ envp.map utf8, 0 ∉ s := by
    intro s hs
    obtain ⟨e, he, rfl⟩ := List.mem_map.mp hs
    exact henv e he
  unfold loadImage
  refine Triple.bind (R := fun main w => main = d.info 0 ∧ w.layout = l) ?_ fun main =>
    Triple.of_fact ?_
  · have hvalue : Triple (fun _ => True) (loadElfIntoProcess pid d 0)
        (fun main _ => main = d.info 0) fun _ _ => True := by
      unfold loadElfIntoProcess
      refine Triple.ite (fun _ => Triple.throw fun _ _ => trivial) fun _ => ?_
      exact Triple.bind (triple_true _) fun _ => Triple.pure fun _ _ => rfl
    exact (hvalue.and (hstep (loadElfIntoProcess_frames _ _ _))).imp (fun w h => ⟨trivial, h⟩)
      (fun _ _ h => h) fun _ _ _ => trivial
  intro hmain
  rw [hmain]
  refine Triple.bind (loadInterpreter_base _ _) fun interp => Triple.of_fact fun hinterp => ?_
  have hwords := imageAuxv_words (d := d) hinterp
  refine Triple.bind (R := fun _ w => w.layout = l ∧ w.Live pid)
    ((getProcess_task pid).imp (fun _ h => h) (fun t w h => ⟨h.1, ?_⟩) fun _ _ _ => trivial)
    fun _ => ?_
  · show w.live pid = true
    rw [World.live, h.2]
    rfl
  refine Triple.bind (R := fun l' w => l' = l ∧ w.layout = l ∧ w.Live pid)
    (Triple.gets fun w h => ⟨h.1, h⟩) fun l' => Triple.of_fact fun hl => ?_
  refine Triple.bind (R := fun _ w => w.layout = l ∧ w.Live pid) ?_ fun _ => ?_
  · have hlive : Keeps (World.Live pid) (modifyMm pid (·.resetRegions l' (d.info 0).loadEnd)) :=
      (modifyMm_frames (V := World.live pid) _ _).keeps (· = true)
    exact ((hstep (by simp)).and hlive.triple).errors fun _ _ _ => trivial
  refine Triple.bind (setupInitialStack_page htop path argv envp _) fun _ => ?_
  refine Triple.of_pre fun w₀ h₀ => ?_
  obtain ⟨hlayout, sp, stores, slot, hcomputed, hpage⟩ := h₀
  -- what comes next leaves the page as it is
  have hrest : ∀ {α : Type} {c : M α}, Frames World.layout c → Frames World.vspaceOf c →
      Frames World.readView c →
      Triple (fun w => w.layout = l ∧ StackPage pid base slot (storedByte stores) w) c
        (fun _ w => w.layout = l ∧ StackPage pid base slot (storedByte stores) w) fun _ _ => True :=
    fun hl hv hf => ((hstep hl).and (StackPage.step hv hf)).errors fun _ _ _ => trivial
  refine Triple.pre (K := fun w => w.layout = l ∧ StackPage pid base slot (storedByte stores) w) ?_
    fun w hw => by rw [hw]; exact ⟨hlayout, hpage⟩
  refine Triple.bind (((hstep (setupInitialTls_frames _)).and
    (setupInitialTls_page hapart htop)).imp (fun w h => ⟨h.1, h⟩) (fun _ _ h => h)
      fun _ _ _ => trivial) fun _ => ?_
  refine Triple.bind (hrest (by simp) (by simp) (by simp)) fun _ => ?_
  refine Triple.bind (hrest ext_frames ext_frames ext_frames) fun _ => ?_
  refine Triple.bind (hrest ext_frames ext_frames ext_frames) fun _ => ?_
  refine (hrest (closeCloexecFds_frames pid) (closeCloexecFds_frames pid)
    (closeCloexecFds_frames pid)).imp (fun _ h => h) (fun _ w h => ?_) fun _ _ _ => trivial
  exact ⟨interp, base + sp, h.2.startsAt (by rw [h.1, htop]) hbase hpos hcomputed hargs henv'
    (fun kv hkv => (hwords kv hkv).1) fun kv hkv => (hwords kv hkv).2⟩

/-- A load that succeeds starts the program with the strings it was given. -/
theorem doExecve_starts {w w' : World} {path : String} {args env : List String}
    (hapart : w.layout.TlsApart) (hargs : ∀ s ∈ startArgs path args, 0 ∉ s)
    (henv : ∀ s ∈ env, 0 ∉ utf8 s) (hrun : (doExecve pid path args env).run w = (.ok (), w')) :
    ∃ d w₁ interp sp, w₁.Emptied pid ∧ (loadImage pid path args env d).run w₁ = (.ok (), w') ∧
      w'.StartsAt pid (startArgs path args) (env.map utf8) (imageAuxv d interp) sp := by
  obtain ⟨d, w₁, hempty, hlayout, hload⟩ := doExecve_split hrun
  obtain ⟨hend, -⟩ := (loadImage_starts hapart hargs henv :
    Triple _ (loadImage pid path args env d) _ _) w₁ hlayout
  rw [hload] at hend
  obtain ⟨interp, sp, hstarts⟩ := hend () rfl
  exact ⟨d, w₁, interp, sp, hempty, hload, hstarts⟩

/-- `execve` passes its strings: when it succeeds, the program that starts finds on its stack the
arguments and the environment that were in the memory of the caller, next to the pairs that describe
its own image. -/
theorem execve_passes_strings {w w' : World} {mm : MmState} {file argv envp : Nat} {path : String}
    {args env : List String} (hinv : FrameInv w) (hmm : w.mms.get? pid = some mm)
    (hsound : mm.Sound) (hapart : w.layout.TlsApart) (hfile : file ≠ 0)
    (hpath : (w.readable pid).StringAt file USER_PATH_MAX (utf8 path))
    (hargs : w.Passes pid argv args) (henv : w.Passes pid envp env)
    (hrun : (doExecveUser pid file argv envp).run w = (.ok (), w')) :
    ∃ d w₁ interp sp, w₁.Emptied pid ∧ (loadImage pid path args env d).run w₁ = (.ok (), w') ∧
      w'.StartsAt pid (startArgs path args) (env.map utf8) (imageAuxv d interp) sp := by
  have hnul : ∀ s ∈ startArgs path args, 0 ∉ s := by
    intro s hs
    unfold startArgs at hs
    split at hs
    · rw [List.mem_singleton.mp hs]
      exact hpath.nulFree
    · obtain ⟨a, ha, rfl⟩ := List.mem_map.mp hs
      exact hargs.nulFree a ha
  -- what is read from the old image
  rw [doExecveUser] at hrun
  rcases hread : (parseExecveUserInput pid file argv envp).run w with ⟨e | input, w₀⟩
  · rw [run_bind_error hread] at hrun
    cases hrun
  rw [run_bind_ok hread] at hrun
  have hinput := (parseExecveUserInput_reads hinv hmm hsound hfile hpath hargs henv w rfl).1 input
    (by rw [hread])
  have hlayout : w₀.layout = w.layout := by
    have hkeep : Keeps (fun v => v.layout = w.layout) (parseExecveUserInput pid file argv envp) :=
      parseExecveUserInput_keeps (GrowKeeps.grow _) _ _ _
    have := hkeep w rfl
    rwa [hread] at this
  -- what is loaded
  have hstrings : input.1 = path ∧ input.2.1 = args ∧ input.2.2 = env := by
    rw [hinput]
    exact ⟨rfl, rfl, rfl⟩
  rw [hstrings.1, hstrings.2.1, hstrings.2.2] at hrun
  exact doExecve_starts (hlayout ▸ hapart) hnul henv.nulFree hrun

end Program

/-- `init` has a path, one argument and one variable, and two arrays that lead to them. -/
def samplePasses : World := sampleBoot.after (.syscall 1 (.userWrite 0x3ffff800
  (leBytes 8 0x3ffff822 ++ leBytes 8 0 ++ leBytes 8 0x3ffff824 ++ leBytes 8 0 ++
    [97, 0, 98, 0, 99, 61, 100, 0])))

/-- A string of the sample. -/
theorem samplePasses_string (a : Nat) (bytes : List UInt8) (str : String) (limit : Nat)
    (hbytes : utf8 str = bytes) (hnul : 0 ∉ bytes) (hshort : bytes.length < limit)
    (hholds : ∀ i, (h : i < (bytes ++ [0]).length) →
      samplePasses.readable 1 (a + i) = some ((bytes ++ [0])[i])) :
    (samplePasses.readable 1).StringAt a limit (utf8 str) := by
  rw [hbytes]
  refine ⟨hnul, hshort, ?_⟩
  rw [Memory.holdsBytes_iff]
  exact hholds

/-- The image of the sample starts with its one argument and its one variable. -/
theorem execve_passes_strings_samplePasses :
    ∃ d w₁ interp sp w', w₁.Emptied 1 ∧ (loadImage 1 "a" ["b"] ["c=d"] d).run w₁ = (.ok (), w') ∧
      w'.StartsAt 1 [[98]] [[99, 61, 100]] (imageAuxv d interp) sp := by
  -- the process passes one argument and one variable, and the call returns
  obtain ⟨mm, hmm, hsound⟩ := @World.sound_of_check samplePasses 1 (by decide +kernel)
  have hinv : FrameInv samplePasses := (sampleBoot_reachable.after (by decide +kernel)).frameInv
  have hok : ((doExecveUser 1 0x3ffff820 0x3ffff800 0x3ffff810).run samplePasses).1 = .ok () := by
    decide +kernel
  have hpath : (samplePasses.readable 1).StringAt 0x3ffff820 USER_PATH_MAX (utf8 "a") :=
    samplePasses_string _ [97] _ _ (by decide +kernel) (by decide) (by decide) (by decide +kernel)
  have hargs : samplePasses.Passes 1 0x3ffff800 ["b"] := by
    refine .inr ⟨by decide, [0x3ffff822], by decide, ⟨by decide +kernel, trivial⟩,
      by decide +kernel, .cons ?_ .nil⟩
    exact samplePasses_string _ [98] _ _ (by decide +kernel) (by decide) (by decide)
      (by decide +kernel)
  have henv : samplePasses.Passes 1 0x3ffff810 ["c=d"] := by
    refine .inr ⟨by decide, [0x3ffff824], by decide, ⟨by decide +kernel, trivial⟩,
      by decide +kernel, .cons ?_ .nil⟩
    exact samplePasses_string _ [99, 61, 100] _ _ (by decide +kernel) (by decide) (by decide)
      (by decide +kernel)
  have hapart : samplePasses.layout.TlsApart := .inl (by decide +kernel)
  obtain ⟨d, w₁, interp, sp, hempty, hload, hstarts⟩ := execve_passes_strings hinv hmm hsound hapart
    (by decide) hpath hargs henv (Prod.ext hok rfl)
  refine ⟨d, w₁, interp, sp, _, hempty, hload, ?_⟩
  rwa [show startArgs "a" ["b"] = [[98]] by decide +kernel,
    show ["c=d"].map utf8 = [[99, 61, 100]] by decide +kernel] at hstarts

end Ape
