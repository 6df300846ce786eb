import Ape.Proofs.CallMemory
import Ape.Proofs.Handles
import Ape.Proofs.TtyControl

/-!
# `Ape.Proofs.Ioctl`: control requests of a process to the terminal

`do_ioctl` finds out from the request number alone how many bytes go in and out, and the device
decodes the number on its own. `ioctlLens_fits` shows that both agree, for every number that the
device knows, except for the old number of `TIOCGSID`.

`terminal_settings_round_trip` follows a setting from the memory of one process to the memory of
another: a request that sets it, any use of the terminal that leaves it alone, and a request
that reports it.
-/

set_option autoImplicit false

namespace Ape

open Ape.Lib Cmd

variable {A : AnsiParser}

/-! ### Sizes -/

/-- The bytes that a command takes in. -/
def TtyCmd.inSize (c : TtyCmd) : Nat := (c.sets.map TtySetting.size).getD 0

/-- The bytes that a command gives out. -/
def TtyCmd.outSize (c : TtyCmd) : Nat := (c.gets.map TtySetting.size).getD 0

/-- The numbers that the device knows, with the command of each. -/
def ttyRequests : List (Nat × TtyCmd) :=
  [(TCGETS, .tcgets), (TCSETS, .tcsets), (TCSETSW, .tcsetsw), (TCSETSF, .tcsetsf),
   (TIOCGWINSZ, .tiocgwinsz), (TIOCSWINSZ, .tiocswinsz), (TIOCGPGRP, .tiocgpgrp),
   (TIOCSPGRP, .tiocspgrp), (TIOCGSID, .tiocgsid), (TIOCSCTTY, .tiocsctty),
   (TIOCNOTTY, .tiocnotty), (ttyIoctlRead 0x01 TTY_TERMIOS_SIZE, .tcgets),
   (ttyIoctlWrite 0x02 TTY_TERMIOS_SIZE, .tcsets), (ttyIoctlWrite 0x03 TTY_TERMIOS_SIZE, .tcsetsw),
   (ttyIoctlWrite 0x04 TTY_TERMIOS_SIZE, .tcsetsf), (ttyIoctlRead 0x13 WINSIZE_SIZE, .tiocgwinsz),
   (ttyIoctlWrite 0x14 WINSIZE_SIZE, .tiocswinsz), (ttyIoctlRead 0x77 I32_SIZE, .tiocgpgrp),
   (ttyIoctlWrite 0x76 I32_SIZE, .tiocspgrp), (ttyIoctlRead 0x63 I32_SIZE, .tiocgsid)]

/-- One step of a search through alternatives. -/
theorem ite_eq_some {α : Type} {p : Prop} [Decidable p] {a c : α} {o : Option α}
    (h : (if p then some a else o) = some c) : (p ∧ a = c) ∨ o = some c := by
  by_cases hp : p
  · rw [if_pos hp] at h
    exact .inl ⟨hp, Option.some.inj h⟩
  · rw [if_neg hp] at h
    exact .inr h

/-- A request of the terminal is in the list of them. -/
theorem mem_ttyRequests {request : Nat} {c : TtyCmd} (h : decodeTtyCmd request = some c) :
    (request, c) ∈ ttyRequests := by
  unfold decodeTtyCmd at h
  unfold ttyRequests
  iterate 20
    rcases ite_eq_some h with ⟨rfl, rfl⟩ | h
    · exact List.mem_cons_self
    refine List.mem_cons_of_mem _ ?_
  cases h

/-- The system call moves as many bytes as the device takes and gives, for every number that the
device knows but one. -/
theorem ioctlLens_fits {request : Nat} {c : TtyCmd} (h : decodeTtyCmd request = some c)
    (hsid : request ≠ TIOCGSID) :
    ioctlLens request = (c.inSize, c.outSize) ∧ ioctlSize request ≤ IOCTL_MAX_STRUCT_SIZE := by
  have hall : ∀ r ∈ ttyRequests, r.1 ≠ TIOCGSID →
      ioctlLens r.1 = (r.2.inSize, r.2.outSize) ∧ ioctlSize r.1 ≤ IOCTL_MAX_STRUCT_SIZE := by
    decide
  exact hall (request, c) (mem_ttyRequests h) hsid

/-! ### The memory of the caller -/

/-- Two states with the same memory of a process. -/
structure SameMemory (w w' : World) (pid : Nat) : Prop where
  mms : w'.mms = w.mms
  bytes : ∀ x, w'.userByte pid x = w.userByte pid x

/-- A change of descriptors is no change of memory. -/
theorem modifyFiles_sameMemory (w : World) (pid q : Nat) (f : FilesState → FilesState) :
    SameMemory w ((modifyFiles q f).run w).2 pid := by
  have hmms : ((modifyFiles q f).run w).2.mms = w.mms := modifyFiles_frames (V := World.mms) q f w
  refine ⟨hmms, ?_⟩
  intro x
  exact World.userByte_congr hmms fun _ _ => rfl

/-- A buffer stays one while a handle is out of its table. -/
theorem World.Buffer.handleOut {w : World} {pid a n : Nat} (h : w.Buffer pid a n) (fd : Nat) :
    (w.handleOut pid fd).Buffer pid a n where
  frames := (modifyFiles_keeps (I := FrameInv) pid (·.removeFd fd)) w h.frames
  tables := by
    have hmms : (w.handleOut pid fd).mms = w.mms :=
      (modifyFiles_sameMemory w pid pid (·.removeFd fd)).mms
    rw [hmms]
    exact h.tables

/-- What a request finds in the caller's memory is what the memory holds. -/
theorem ioctlInput_holds {w w' : World} {pid a n : Nat} {input : Option (List UInt8)}
    (hbuf : w.Buffer pid a n) (hn : 0 < n)
    (h : (ioctlInput pid a n).run w = (.ok input, w')) :
    SameMemory w w' pid ∧ ∃ bytes, input = some bytes ∧ bytes.length = n ∧
      Memory.HoldsBytes (w.userByte pid) a bytes := by
  obtain ⟨mm, hmm, hsound, hout⟩ := hbuf.tables
  have hcopy := copyFromUser_exact hbuf.frames hsound hmm hout
  unfold ioctlInput at h
  -- a request with an input needs a pointer, and the copy is exact
  rw [if_neg (by omega)] at h
  by_cases ha : a = 0
  · rw [if_pos ha] at h
    cases h
  rw [if_neg ha] at h
  cases hrun : (copyFromUser pid a n).run w with
  | mk r w₁ =>
    rw [hrun] at hcopy
    cases r with
    | error e =>
      rw [run_bind_error hrun] at h
      cases h
    | ok bytes =>
      rw [run_bind_ok hrun] at h
      cases h
      obtain ⟨hlen, hbytes⟩ := hcopy.bytes bytes rfl
      exact ⟨⟨hcopy.unchanged.1, hcopy.unchanged.2.2⟩, bytes, rfl, hlen, hbytes⟩

/-- What a service gives out is stored at the argument. -/
theorem ioctlOutput_stored {w w' : World} {pid a : Nat} {out : List UInt8}
    (hbuf : w.Buffer pid a out.length) (h : (ioctlOutput pid a out).run w = (.ok (), w')) :
    w.Reads pid (overlay (w.userByte pid) a out) w' := by
  obtain ⟨mm, hmm, hsound, hout⟩ := hbuf.tables
  have hcopy := copyToUser_exact hbuf.frames hsound hmm hout
  unfold ioctlOutput at h
  by_cases hnil : out = []
  · rw [if_pos hnil] at h
    cases h
    rw [hnil, overlay_nil]
    exact .refl w pid
  rw [if_neg hnil] at h
  by_cases ha : a = 0
  · rw [if_pos ha] at h
    cases h
  rw [if_neg ha] at h
  rw [h] at hcopy
  exact hcopy.stored rfl

/-! ### One request -/

section Request

variable {w w' : World} {d d' : TtyDevice A} {pid slot request argp : Nat} {c : TtyCmd}
  {k : TtySetting} {host : Except Err Unit} {ret : Int}

/-- The three steps of a request that is granted. -/
theorem passthrough_ok {D : Type} {svc : IoctlService D} {e e' : D}
    (h : (doIoctlFsPassthrough svc pid slot request argp).run (w, e) = (.ok ret, (w', e'))) :
    ∃ input w₁ n out, (ioctlInput pid argp (ioctlLens request).1).run w = (.ok input, w₁) ∧
      svc slot ⟨request, argp, input, (ioctlLens request).2⟩ e = (.ok (n, out), e') ∧
      (ioctlOutput pid argp out).run w₁ = (.ok (), w') := by
  -- the request has input, the call of the device, and output, and each of them can fail
  unfold doIoctlFsPassthrough at h
  split at h
  · cases h
  cases hin : (ioctlInput pid argp (ioctlLens request).1).run w with
  | mk r w₁ =>
    have hfst : (inFst (ioctlInput pid argp (ioctlLens request).1) :
        Cmd (World × D) Err (Option (List UInt8))).run (w, e) = (r, (w₁, e)) := by
      rw [run_inFst, hin]
    cases r with
    | error x =>
      rw [run_bind_error hfst] at h
      cases h
    | ok input =>
      rw [run_bind_ok hfst] at h
      cases hsvc : svc slot ⟨request, argp, input, (ioctlLens request).2⟩ e with
      | mk r e₁ =>
        have hcall : (fsIoctlEx svc slot ⟨request, argp, input, (ioctlLens request).2⟩).run
            (w₁, e) = (r, (w₁, e₁)) := by
          show ((svc slot _ e).1, (w₁, (svc slot _ e).2)) = _
          rw [hsvc]
        cases r with
        | error x =>
          rw [run_bind_error hcall] at h
          cases h
        | ok a =>
          obtain ⟨n, out⟩ := a
          rw [run_bind_ok hcall] at h
          cases hout : (ioctlOutput pid argp out).run w₁ with
          | mk r w₂ =>
            have hlast : (inFst (ioctlOutput pid argp out) : Cmd (World × D) Err Unit).run
                (w₁, e₁) = (r, (w₂, e₁)) := by
              rw [run_inFst, hout]
            cases r with
            | error x =>
              rw [run_bind_error hlast] at h
              cases h
            | ok u =>
              rw [run_bind_ok hlast] at h
              cases h
              exact ⟨input, w₁, n, out, rfl, hsvc, hout⟩

/-- A request that sets, and is granted: the bytes of the caller's buffer are the setting now. -/
theorem passthrough_sets (hbuf : w.Buffer pid argp k.size) (hcmd : decodeTtyCmd request = some c)
    (hsets : c.sets = some k)
    (h : (doIoctlFsPassthrough (ttyService A host) pid slot request argp).run (w, d) =
      (.ok ret, (w', d'))) :
    SameMemory w w' pid ∧ ∃ bytes, bytes.length = k.size ∧
      Memory.HoldsBytes (w.userByte pid) argp bytes ∧ d'.compat.setting k = bytes := by
  -- the session request sets nothing, so the sizes are those of the table
  have hsid : request ≠ TIOCGSID := by
    rintro rfl
    cases hcmd
    cases hsets
  have hlens : ioctlLens request = (c.inSize, c.outSize) := (ioctlLens_fits hcmd hsid).1
  have hin : c.inSize = k.size := by rw [TtyCmd.inSize, hsets]; rfl
  obtain ⟨input, w₁, n, out, hinput, hdev, houtput⟩ := passthrough_ok h
  rw [hlens, hin] at hinput
  have hpos : 0 < k.size := by cases k <;> decide
  obtain ⟨hsame, bytes, rfl, hlen, hbytes⟩ := ioctlInput_holds hbuf hpos hinput
  have hdev' : d.ioctlEx host request (some bytes) (ioctlLens request).2 =
      (.ok (n, out), d') := hdev
  -- the device runs the change that the request asks for
  have hset : d'.compat.setting k = bytes := by
    have hafter := after_setting d (.ioctl host request (some bytes) (ioctlLens request).2)
    have hchange : (TtyOp.ioctl host request (some bytes) (ioctlLens request).2).change =
        some (k, bytes) := by
      rw [TtyOp.change, hcmd, Option.bind_some]
      exact change_exact hsets hlen
    rw [hchange] at hafter
    have hdevice : d.after (.ioctl host request (some bytes) (ioctlLens request).2) = d' :=
      congrArg Prod.snd hdev'
    rw [hdevice] at hafter
    rw [hafter]
    exact Function.update_self k bytes d.compat.setting
  -- a request that sets gives nothing back, so the output stores nothing
  have hnone : out = [] := by
    rw [TtyDevice.ioctlEx, hcmd] at hdev'
    exact sets_gives_nothing hsets hdev'
  rw [hnone] at houtput
  cases houtput
  exact ⟨hsame, bytes, hlen, hbytes, hset⟩

/-- A request that reports: the setting goes to the caller's buffer, and nowhere else. -/
theorem passthrough_gets (hbuf : w.Buffer pid argp k.size) (hcmd : decodeTtyCmd request = some c)
    (hgets : c.gets = some k) (hsid : request ≠ TIOCGSID)
    (h : (doIoctlFsPassthrough (ttyService A host) pid slot request argp).run (w, d) =
      (.ok ret, (w', d'))) :
    d' = d ∧ w.Reads pid (overlay (w.userByte pid) argp (d.compat.setting k)) w' := by
  have hlens : ioctlLens request = (c.inSize, c.outSize) := (ioctlLens_fits hcmd hsid).1
  have hout : c.outSize = k.size := by rw [TtyCmd.outSize, hgets]; rfl
  have hin : c.inSize = 0 := by cases c <;> cases hgets <;> rfl
  obtain ⟨input, w₁, n, out, hinput, hdev, houtput⟩ := passthrough_ok h
  rw [hlens, hin] at hinput
  cases hinput
  have hanswer := ioctlEx_answer d host (ioctlLens request).2 none (k := k)
    (Option.bind_eq_some_iff.mpr ⟨c, hcmd, hgets⟩)
  have hall : (d.compat.setting k).take k.size = d.compat.setting k := by
    rw [← length_setting d.compat k, List.take_length]
  rw [hlens, hout, hall] at hanswer
  rw [hlens, hout] at hdev
  have hdev' : (.ok (0, d.compat.setting k), d) = (Except.ok (n, out), d') :=
    hanswer.symm.trans hdev
  cases hdev'
  refine ⟨rfl, ioctlOutput_stored ?_ houtput⟩
  rw [length_setting]
  exact hbuf

/-- A granted `ioctl` is a granted request, with the handle out of the table. -/
theorem doIoctl_ok {D : Type} {svc : IoctlService D} {fd : Nat} {e e' : D} (hzero : request ≠ 0)
    (h : (doIoctl svc pid fd request argp).run (w, e) = (.ok ret, (w', e'))) :
    ∃ handle w₁, (doIoctlFsPassthrough svc pid handle.fsEpSlot request argp).run
        (w.handleOut pid fd, e) = (.ok ret, (w₁, e')) ∧ w' = w₁.handleBack pid fd handle := by
  unfold doIoctl at h
  split at h
  · cases h
  split at h
  · cases h
  cases htask : w.task? pid with
  | none =>
    have hgone : (inFst (getProcess pid) : Cmd (World × D) Err TaskStruct).run (w, e) =
        (.error .notFound, (w, e)) := by
      rw [run_inFst, getProcess, run_gets_bind, htask]
      rfl
    rw [run_bind_error hgone] at h
    cases h
  | some task =>
    have hfound : (inFst (getProcess pid) : Cmd (World × D) Err TaskStruct).run (w, e) =
        (.ok task, (w, e)) := by
      rw [run_inFst, run_getProcess htask]
    rw [run_bind_ok hfound] at h
    cases hfd : task.files.fds.get? fd with
    | none =>
      rw [hfd] at h
      cases h
    | some handle =>
      have hout : (inFst (modifyFiles pid (·.removeFd fd)) : Cmd (World × D) Err Unit).run (w, e) =
          (.ok (), (w.handleOut pid fd, e)) := rfl
      rw [hfd, getSome_bind, run_bind_ok hout, run_bind_ok (run_attempt _ _)] at h
      -- whatever the outcome is, the handle goes back into the table
      cases hrun : (doIoctlFsPassthrough svc pid handle.fsEpSlot request argp).run
          (w.handleOut pid fd, e) with
      | mk r s =>
        obtain ⟨w₁, e₁⟩ := s
        have hback : (inFst (modifyFiles pid (·.insertFd fd handle)) :
            Cmd (World × D) Err Unit).run (w₁, e₁) = (.ok (), (w₁.handleBack pid fd handle, e₁)) :=
          rfl
        rw [hrun, run_bind_ok hback] at h
        cases r with
        | error x => cases h
        | ok n =>
          cases h
          exact ⟨handle, w₁, hrun, rfl⟩

end Request

/-! ### From one process to another -/

/-- The settings of the terminal go through the memory of processes unchanged. A request that sets
one and is granted stores the bytes of the caller's buffer. After any run of reads, writes,
polls and requests that leaves this setting alone, a request that reports it, of any process and
by any number but the old one of `TIOCGSID`, stores these bytes in its caller's buffer, changes no
other byte of it, and leaves the terminal as it is. -/
theorem terminal_settings_round_trip {w₁ w₁' w₂ w₂' : World} {d d₁ d₂ : TtyDevice A}
    {pid₁ fd₁ set p pid₂ fd₂ get q : Nat} {k : TtySetting} {ret₁ ret₂ : Int}
    {host₁ host₂ : Except Err Unit} {ops : List TtyOp}
    (hbuf₁ : w₁.Buffer pid₁ p k.size) (hbuf₂ : w₂.Buffer pid₂ q k.size)
    (hset : (decodeTtyCmd set).bind TtyCmd.sets = some k)
    (hget : (decodeTtyCmd get).bind TtyCmd.gets = some k) (hsid : get ≠ TIOCGSID)
    (hops : LeavesAlone k ops)
    (hrun₁ : (doIoctl (ttyService A host₁) pid₁ fd₁ set p).run (w₁, d) = (.ok ret₁, (w₁', d₁)))
    (hrun₂ : (doIoctl (ttyService A host₂) pid₂ fd₂ get q).run (w₂, d₁.afterAll ops) =
      (.ok ret₂, (w₂', d₂))) :
    ∃ bytes, bytes.length = k.size ∧ Memory.HoldsBytes (w₁.userByte pid₁) p bytes ∧
      (∀ x, w₁'.userByte pid₁ x = w₁.userByte pid₁ x) ∧
      (∀ x, w₂'.userByte pid₂ x = overlay (w₂.userByte pid₂) q bytes x) ∧
      d₂ = d₁.afterAll ops := by
  obtain ⟨c₁, hcmd₁, hsets⟩ := Option.bind_eq_some_iff.mp hset
  obtain ⟨c₂, hcmd₂, hgets⟩ := Option.bind_eq_some_iff.mp hget
  -- the null request is no request of the terminal
  have hset0 : set ≠ 0 := by
    rintro rfl
    cases hcmd₁
  have hget0 : get ≠ 0 := by
    rintro rfl
    cases hcmd₂
  obtain ⟨handle₁, v₁, hpass₁, rfl⟩ := doIoctl_ok hset0 hrun₁
  obtain ⟨handle₂, v₂, hpass₂, rfl⟩ := doIoctl_ok hget0 hrun₂
  obtain ⟨hmem₁, bytes, hlen, hholds, hstored⟩ :=
    passthrough_sets (hbuf₁.handleOut fd₁) hcmd₁ hsets hpass₁
  obtain ⟨hsame, hreads⟩ := passthrough_gets (hbuf₂.handleOut fd₂) hcmd₂ hgets hsid hpass₂
  have hout₁ : SameMemory w₁ (w₁.handleOut pid₁ fd₁) pid₁ := modifyFiles_sameMemory w₁ pid₁ pid₁ _
  have hback₁ : SameMemory v₁ (v₁.handleBack pid₁ fd₁ handle₁) pid₁ :=
    modifyFiles_sameMemory v₁ pid₁ pid₁ _
  have hout₂ : SameMemory w₂ (w₂.handleOut pid₂ fd₂) pid₂ := modifyFiles_sameMemory w₂ pid₂ pid₂ _
  have hback₂ : SameMemory v₂ (v₂.handleBack pid₂ fd₂ handle₂) pid₂ :=
    modifyFiles_sameMemory v₂ pid₂ pid₂ _
  have hread₁ : (w₁.handleOut pid₁ fd₁).userByte pid₁ = w₁.userByte pid₁ := funext hout₁.bytes
  have hread₂ : (w₂.handleOut pid₂ fd₂).userByte pid₂ = w₂.userByte pid₂ := funext hout₂.bytes
  refine ⟨bytes, hlen, hread₁ ▸ hholds, ?_, ?_, hsame⟩
  · intro x
    rw [hback₁.bytes, hmem₁.bytes, hout₁.bytes]
  · intro x
    rw [hback₂.bytes, hreads.2.2 x, afterAll_alone hops, hstored, hread₂]

/-- The part of the stack that is there is a buffer. -/
theorem World.buffer_of_check {w : World} {pid a n : Nat} (hinv : FrameInv w)
    (hcheck : (w.mms.get? pid).map (fun mm => mm.soundCheck &&
      decide (mm.stackBottom - mm.stackSize ≤ a)) = some true) : w.Buffer pid a n := by
  obtain ⟨mm, hmm, hboth⟩ := Option.map_eq_some_iff.mp hcheck
  obtain ⟨hsound, hstack⟩ := Bool.and_eq_true_iff.mp hboth
  refine ⟨hinv, mm, hmm, MmState.Sound.of_check hsound, ?_⟩
  intro x hx _ hres
  have hlow : mm.stackBottom - mm.stackSize ≤ a := of_decide_eq_true hstack
  have hhigh := hres.2
  omega

/-- `init` makes a process group of its stack the foreground group, and asks for it after some
output. -/
theorem terminal_settings_round_trip_init :
    ∃ bytes, bytes.length = 4 ∧ Memory.HoldsBytes (sampleBoot.userByte 1) 0x3ffff000 bytes ∧
      ∀ x, ((doIoctl (ttyService sampleParser (.ok ())) 1 0 TIOCGPGRP 0x3ffff100).run (sampleBoot,
          ((doIoctl (ttyService sampleParser (.ok ())) 1 0 TIOCSPGRP 0x3ffff000).run
            (sampleBoot, sampleTty)).2.2.afterAll [.write [0x61], .poll])).2.1.userByte 1 x =
        overlay (sampleBoot.userByte 1) 0x3ffff100 bytes x := by
  have hops : LeavesAlone .pgrp [.write [0x61], .poll] := by
    intro op hop bytes hchange
    rcases List.mem_cons.mp hop with rfl | hop
    · cases hchange
    · rcases List.mem_singleton.mp hop with rfl
      cases hchange
  have hset : ((doIoctl (ttyService sampleParser (.ok ())) 1 0 TIOCSPGRP 0x3ffff000).run
      (sampleBoot, sampleTty)).1 = .ok 0 := by decide +kernel
  have hget : ((doIoctl (ttyService sampleParser (.ok ())) 1 0 TIOCGPGRP
    0x3ffff100).run (sampleBoot,
      ((doIoctl (ttyService sampleParser (.ok ())) 1 0 TIOCSPGRP 0x3ffff000).run
        (sampleBoot, sampleTty)).2.2.afterAll [.write [0x61], .poll])).1 = .ok 0 := by
    decide +kernel
  obtain ⟨bytes, hlen, hholds, -, hstored, -⟩ := terminal_settings_round_trip (k := .pgrp)
    (World.buffer_of_check sampleBoot_reachable.frameInv (by decide +kernel)) (World.buffer_of_check
      sampleBoot_reachable.frameInv (by decide +kernel)) (by decide) (by decide)
    (by decide) hops (Prod.ext hset rfl) (Prod.ext hget rfl)
  exact ⟨bytes, hlen, hholds, hstored⟩

end Ape
