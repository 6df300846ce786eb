import Ape.Model.Ioctl
import Ape.Proofs.Bytes
import Ape.Proofs.TtyLines

/-!
# `Ape.Proofs.TtyControl`: the settings of the terminal

A terminal has three settings: the modes, the window size and the foreground process group.
`TtySetting` names them and `TtyDevice.setting` has the bytes of each, as a program sees them.

`TtyOp` are the operations of the device, with everything that the host answers. An abstract
terminal is a store of three byte strings, and `TtySettings.apply` is what an operation does to
it: a request that sets puts its payload there, and nothing else matters.
`after_setting` shows that the device refines this store, one operation after the other.
-/

set_option autoImplicit false

namespace Ape

variable {A : AnsiParser}

/-! ### The three settings -/

/-- The settings of a terminal. -/
inductive TtySetting where
  | termios | winsize | pgrp
  deriving DecidableEq, Repr

/-- The size of a setting in memory. -/
def TtySetting.size : TtySetting → Nat
  | .termios => TTY_TERMIOS_SIZE
  | .winsize => WINSIZE_SIZE
  | .pgrp => I32_SIZE

/-- The setting that a request changes. -/
def TtyCmd.sets : TtyCmd → Option TtySetting
  | .tcsets | .tcsetsw | .tcsetsf => some .termios
  | .tiocswinsz => some .winsize
  | .tiocspgrp => some .pgrp
  | _ => none

/-- The setting that a request reports. -/
def TtyCmd.gets : TtyCmd → Option TtySetting
  | .tcgets => some .termios
  | .tiocgwinsz => some .winsize
  | .tiocgpgrp | .tiocgsid => some .pgrp
  | _ => none

/-- The bytes of a setting. -/
def TtyCompatState.setting (s : TtyCompatState A) : TtySetting → List UInt8
  | .termios => s.termios.bytes
  | .winsize => s.winsize.winsizeBytes
  | .pgrp => i32Bytes s.pgrp

/-- The bytes of a setting are as many as its record has. -/
theorem length_setting (s : TtyCompatState A) (k : TtySetting) : (s.setting k).length = k.size := by
  cases k with
  | termios => exact s.termios.size
  | winsize => simp [TtyCompatState.setting, WindowSize.winsizeBytes, TtySetting.size, WINSIZE_SIZE]
  | pgrp => exact length_leBytes 4 _

/-! ### Bytes that are stored and read back -/

/-- The bytes of the value of bytes. -/
theorem leBytes_leNat (bs : List UInt8) : leBytes bs.length (leNat bs) = bs := by
  induction bs with
  | nil => rfl
  | cons b bs ih =>
    have hlow : (leNat (b :: bs)) % 256 = b.toNat := by
      have hb : b.toNat < 256 := b.toNat_lt
      rw [leNat]
      omega
    have hhigh : (leNat (b :: bs)) / 256 = leNat bs := by
      have hb : b.toNat < 256 := b.toNat_lt
      rw [leNat]
      omega
    rw [List.length_cons, leBytes, hlow, hhigh, ih, UInt8.ofNat_toNat]

/-- A half word is stored as it was read. -/
theorem u16_stored (bs : List UInt8) (h : bs.length = 2) :
    leBytes 2 (UInt16.ofNat (leNat bs)).toNat = bs := by
  have hlt : leNat bs < 2 ^ 16 := by
    have hbound := leNat_lt bs
    rw [h] at hbound
    exact hbound
  have hval : (UInt16.ofNat (leNat bs)).toNat = leNat bs := by
    rw [UInt16.toNat_ofNat']
    exact Nat.mod_eq_of_lt hlt
  rw [hval, ← h, leBytes_leNat]

/-- A window size is stored as it was read. -/
theorem winsize_stored (payload : List UInt8) (h : WINSIZE_SIZE ≤ payload.length) :
    (WindowSize.ofWinsizeBytes payload).winsizeBytes = payload.take WINSIZE_SIZE := by
  have hlen : 8 ≤ payload.length := h
  have hfield : ∀ n, n + 2 ≤ 8 → ((payload.drop n).take 2).length = 2 := by
    intro n hn
    rw [List.length_take, List.length_drop]
    omega
  -- the four fields are the first eight bytes, two by two
  have hrow : ∀ n k, (payload.drop n).take (k + 2) =
      (payload.drop n).take 2 ++ (payload.drop (n + 2)).take k := by
    intro n k
    rw [Nat.add_comm k 2, List.take_add, List.drop_drop]
  show leBytes 2 _ ++ leBytes 2 _ ++ leBytes 2 _ ++ leBytes 2 _ = payload.take 8
  have h0 : (payload.take 2).length = 2 := hfield 0 (by omega)
  unfold WindowSize.ofWinsizeBytes
  dsimp only
  rw [u16_stored _ h0, u16_stored _ (hfield 2 (by omega)), u16_stored _ (hfield 4 (by omega)),
    u16_stored _ (hfield 6 (by omega))]
  have hall := hrow 0 6
  rw [hrow 2 4, hrow 4 2, List.drop_zero] at hall
  simpa using hall.symm

/-- A process group is stored as it was read. -/
theorem i32_stored (bs : List UInt8) (h : bs.length = 4) : i32Bytes (i32OfBytes bs) = bs := by
  have hlt : leNat bs < 2 ^ 32 := by
    have hbound := leNat_lt bs
    rw [h] at hbound
    exact hbound
  unfold i32Bytes i32OfBytes
  rw [BitVec.ofInt_toInt, BitVec.toNat_ofNat, Nat.mod_eq_of_lt hlt, ← h, leBytes_leNat]

/-! ### What leaves the settings alone -/

/-- The three settings of a state. -/
structure SameSettings (s s' : TtyCompatState A) : Prop where
  termios : s'.termios = s.termios
  winsize : s'.winsize = s.winsize
  pgrp : s'.pgrp = s.pgrp

namespace SameSettings

variable {s s' s'' : TtyCompatState A}

/-- The settings are the same as themselves. -/
theorem refl (s : TtyCompatState A) : SameSettings s s := ⟨rfl, rfl, rfl⟩

/-- To have the same settings is transitive. -/
theorem trans (h : SameSettings s s') (h' : SameSettings s' s'') : SameSettings s s'' :=
  ⟨h'.termios.trans h.termios, h'.winsize.trans h.winsize, h'.pgrp.trans h.pgrp⟩

/-- Two branches that leave the settings leave them together. -/
theorem ite {c : Prop} [Decidable c] (h : SameSettings s s') (h' : SameSettings s s'') :
    SameSettings s (if c then s' else s'') := by
  by_cases hc : c
  · rwa [if_pos hc]
  · rwa [if_neg hc]

/-- The same settings have the same bytes. -/
theorem setting (h : SameSettings s s') (k : TtySetting) : s'.setting k = s.setting k := by
  cases k with
  | termios => exact congrArg Termios.bytes h.termios
  | winsize => exact congrArg WindowSize.winsizeBytes h.winsize
  | pgrp => exact congrArg i32Bytes h.pgrp

/-- A move of the cursor. -/
theorem moveCursor (s : TtyCompatState A) (row col : UInt16) :
    SameSettings s (moveCursor s row col) := ⟨rfl, rfl, rfl⟩

/-- A control character leaves the settings. -/
theorem execute (s : TtyCompatState A) (byte : UInt8) : SameSettings s (execute s byte) :=
  .ite (moveCursor s _ _) <| .ite (moveCursor s _ _) <| .ite (moveCursor s _ _) <|
    .ite (moveCursor s _ _) (refl s)

/-- A cursor sequence leaves the settings. -/
theorem csiMove (s : TtyCompatState A) (params : List (List UInt16)) (action : UInt8) :
    SameSettings s (csiMove s params action) := by
  have hmove : ∀ row col, SameSettings s (Ape.moveCursor s row col) := moveCursor s
  -- one move for each action, as in the source
  exact .ite (hmove _ _) <| .ite (hmove _ _) <| .ite (hmove _ _) <| .ite (hmove _ _) <|
    .ite (hmove _ _) <| .ite (hmove _ _) <| .ite (hmove _ _) <| .ite (hmove _ _) <|
    .ite (hmove _ _) <| .ite ⟨rfl, rfl, rfl⟩ <| .ite (hmove _ _) (refl s)

/-- An escape sequence leaves the settings. -/
theorem escMove (s : TtyCompatState A) (byte : UInt8) : SameSettings s (escMove s byte) := by
  have hmove : ∀ row col, SameSettings s (Ape.moveCursor s row col) := moveCursor s
  exact .ite ⟨rfl, rfl, rfl⟩ <| .ite (hmove _ _) <| .ite (hmove _ _) <| .ite (hmove _ _) <|
    .ite (hmove _ _) <| .ite ⟨rfl, rfl, rfl⟩ (refl s)

/-- An action of the parser leaves the settings. -/
theorem perform (s : TtyCompatState A) (p : Perform) : SameSettings s (perform s p) := by
  cases p with
  | print c => exact .ite (moveCursor s _ _) (moveCursor s _ _)
  | execute byte => exact execute s byte
  | csiDispatch params intermediates ignore action =>
    have h := csiMove s params action
    exact ⟨h.termios, h.winsize, h.pgrp⟩
  | escDispatch intermediates ignore byte =>
    have h := escMove s byte
    exact ⟨h.termios, h.winsize, h.pgrp⟩
  | hook => exact refl s
  | put => exact refl s
  | unhook => exact refl s
  | oscDispatch => exact refl s

/-- Actions of the parser leave the settings. -/
theorem performs (ps : List Perform) (s : TtyCompatState A) :
    SameSettings s (ps.foldl Ape.perform s) := by
  induction ps generalizing s with
  | nil => exact refl s
  | cons p ps ih => exact (perform s p).trans (ih _)

/-- Output leaves the settings. -/
theorem processLoop (output : List UInt8) (p : A.State) (s : TtyCompatState A) :
    SameSettings s (processLoop p s output).2 := by
  induction output generalizing p s with
  | nil => exact refl s
  | cons b output ih => exact (performs _ s).trans (ih _ _)

/-- Output moves the cursor and answers queries. It does not touch a setting. -/
theorem processOutput (s : TtyCompatState A) (output : List UInt8) :
    SameSettings s (processOutput s output) := by
  have h := processLoop output s.ansiParser { s with ansiParser := A.new }
  exact ⟨h.termios, h.winsize, h.pgrp⟩

/-- A typed byte that is taken in leaves the settings. -/
theorem acceptByte (s : TtyCompatState A) (b : UInt8) : SameSettings s (acceptByte s b).1 := by
  unfold Ape.acceptByte
  split
  · split
    · exact ⟨rfl, rfl, rfl⟩
    · split
      · exact ⟨rfl, rfl, rfl⟩
      · split
        · exact ⟨rfl, rfl, rfl⟩
        · split <;> exact ⟨rfl, rfl, rfl⟩
  · exact ⟨rfl, rfl, rfl⟩

/-- A typed byte leaves the settings. -/
theorem feedByte (s : TtyCompatState A) (raw : UInt8) : SameSettings s (feedByte s raw).1 := by
  unfold Ape.feedByte
  split
  · exact ⟨rfl, rfl, rfl⟩
  · dsimp only
    split
    · exact ⟨rfl, rfl, rfl⟩
    · have h := acceptByte { s with lastWasCr := decide (raw = CR) }
      exact ⟨(h _).termios, (h _).winsize, (h _).pgrp⟩

/-- Typed bytes leave the settings. -/
theorem feedInput (input : List UInt8) (s : TtyCompatState A) :
    SameSettings s (feedInput s input).1 := by
  induction input generalizing s with
  | nil => exact refl s
  | cons raw input ih => exact (feedByte s raw).trans (ih _)

/-- Bytes that are read leave the settings. -/
theorem takeReadable (s : TtyCompatState A) (n : Nat) : SameSettings s (takeReadable s n).2 := by
  unfold Ape.takeReadable
  split <;> exact ⟨rfl, rfl, rfl⟩

/-- A write leaves the settings. -/
theorem write (d : TtyDevice A) (buf : List UInt8) :
    SameSettings d.compat (d.write buf).2.compat := by
  have h := processOutput d.compat (ttyOutputTransform d.compat.termios buf)
  unfold TtyDevice.write
  split
  · exact refl _
  · dsimp only
    split <;> exact h

/-- Input with its echo leaves the settings. -/
theorem feedEcho (d : TtyDevice A) (input : List UInt8) :
    SameSettings d.compat (d.feedEcho input).2.compat := by
  have h := feedInput input d.compat
  unfold TtyDevice.feedEcho
  dsimp only
  split
  · exact h
  · exact h.trans (write { d with compat := (Ape.feedInput d.compat input).1 } _)

/-- The loop of a read leaves the settings. -/
theorem readLoop (len : Nat) (rs : List (Except Err (List UInt8))) (d : TtyDevice A) :
    SameSettings d.compat (TtyDevice.readLoop len rs d).2.compat := by
  induction rs generalizing d with
  -- the bytes that are buffered are taken, and nothing else happens
  | nil =>
    rw [TtyDevice.readLoop.eq_def]
    dsimp only
    split
    · exact takeReadable _ _
    · exact refl _
  | cons r rs ih =>
    rw [TtyDevice.readLoop.eq_def]
    dsimp only
    split
    · exact takeReadable _ _
    · cases r with
      | error e => exact refl _
      -- an input of the backend is fed and echoed, which keeps the settings
      | ok input =>
        dsimp only
        split
        · exact ih d
        · split
          · exact (feedEcho d _).trans (ih _)
          · exact feedEcho d _

/-- A read leaves the settings. -/
theorem read (d : TtyDevice A) (len : Nat) : SameSettings d.compat (d.read len).2.compat := by
  unfold TtyDevice.read
  split
  · exact refl _
  · exact readLoop len d.reads d

/-- A poll leaves the settings. -/
theorem pollReadable (d : TtyDevice A) : SameSettings d.compat d.pollReadable.2.compat := by
  unfold TtyDevice.pollReadable
  split
  · exact refl _
  · split
    · exact refl _
    · exact refl _
    · exact refl _
    · split
      · exact refl _
      · exact refl _
      · dsimp only
        split
        · exact refl _
        · rename_i ps _ _ input rs _ _
          have h := feedEcho { d with polls := ps, reads := rs } (input.take 256)
          exact h

end SameSettings

/-! ### Runs of the device -/

/-- An operation of the device. The host answers a change of the window size with `host`, and a
process group is an `i32`. -/
inductive TtyOp where
  | read (len : Nat)
  | write (buf : List UInt8)
  | poll
  | ioctl (host : Except Err Unit) (cmd : Nat) (input : Option (List UInt8)) (outLen : Nat)
  | setForegroundPgrp (pgrp : BitVec 32)

/-- The device after an operation. -/
def TtyDevice.after (d : TtyDevice A) : TtyOp → TtyDevice A
  | .read len => (d.read len).2
  | .write buf => (d.write buf).2
  | .poll => d.pollReadable.2
  | .ioctl host cmd input outLen => (d.ioctlEx host cmd input outLen).2
  | .setForegroundPgrp pgrp => d.setForegroundPgrp pgrp.toInt

/-- What is stored for a payload: its first bytes. A payload may be shorter for the modes only,
and zeros follow it then. -/
def TtySetting.store (k : TtySetting) (payload : List UInt8) : Option (List UInt8) :=
  match k with
  | .termios => some ((payload ++ List.replicate TTY_TERMIOS_SIZE 0).take TTY_TERMIOS_SIZE)
  | .winsize | .pgrp => if k.size ≤ payload.length then some (payload.take k.size) else none

/-- The setting that a command changes, and what it stores there. -/
def TtyCmd.change (c : TtyCmd) (input : Option (List UInt8)) : Option (TtySetting × List UInt8) :=
  c.sets.bind fun k => input.bind fun payload => (k.store payload).map fun bytes => (k, bytes)

/-- The setting that an operation changes, and what it stores there. -/
def TtyOp.change : TtyOp → Option (TtySetting × List UInt8)
  | .ioctl _ cmd input _ => (decodeTtyCmd cmd).bind fun c => c.change input
  | .setForegroundPgrp pgrp => some (.pgrp, leBytes 4 pgrp.toNat)
  | .read _ | .write _ | .poll => none

/-- The store of an abstract terminal after a change. -/
def TtySettings.put (f : TtySetting → List UInt8) :
    Option (TtySetting × List UInt8) → TtySetting → List UInt8
  | some c => Function.update f c.1 c.2
  | none => f

/-- A payload of the size of a setting is stored as it is. -/
theorem store_exact {k : TtySetting} {payload : List UInt8} (h : payload.length = k.size) :
    k.store payload = some payload := by
  cases k with
  | termios =>
    have hlen : payload.length = TTY_TERMIOS_SIZE := h
    refine congrArg some ?_
    rw [List.take_append_of_le_length (Nat.le_of_eq hlen.symm)]
    exact List.take_of_length_le (Nat.le_of_eq hlen)
  | winsize =>
    refine (if_pos (Nat.le_of_eq h.symm)).trans (congrArg some ?_)
    exact List.take_of_length_le (Nat.le_of_eq h)
  | pgrp =>
    refine (if_pos (Nat.le_of_eq h.symm)).trans (congrArg some ?_)
    exact List.take_of_length_le (Nat.le_of_eq h)

/-- A request with a payload of the right length stores the payload. -/
theorem change_exact {c : TtyCmd} {k : TtySetting} {payload : List UInt8}
    (hsets : c.sets = some k) (h : payload.length = k.size) :
    c.change (some payload) = some (k, payload) := by
  rw [TtyCmd.change, hsets, Option.bind_some, Option.bind_some, store_exact h, Option.map_some]

/-- A command that sets gives nothing out. -/
theorem sets_gives_nothing {d d' : TtyDevice A} {host : Except Err Unit}
    {input : Option (List UInt8)} {outLen n : Nat} {c : TtyCmd} {k : TtySetting}
    {out : List UInt8} (hsets : c.sets = some k)
    (h : d.command host input outLen c = (.ok (n, out), d')) : out = [] := by
  -- a request without a payload stores nothing
  cases input with
  | none => cases c <;> cases hsets <;> cases h
  | some payload =>
    cases c with
    | tcsets => cases h; rfl
    | tcsetsw => cases h; rfl
    | tcsetsf => cases h; rfl
    | tiocswinsz =>
      rw [TtyDevice.command] at h
      split at h
      · cases h
      · cases host with
        | error e => cases h
        | ok u => cases h; rfl
    | tiocspgrp =>
      rw [TtyDevice.command] at h
      split at h
      · cases h
      · cases h; rfl
    | tcgets => cases hsets
    | tiocgwinsz => cases hsets
    | tiocgpgrp => cases hsets
    | tiocgsid => cases hsets
    | tiocsctty => cases hsets
    | tiocnotty => cases hsets

/-- The modes that are set are the payload, padded with zeros. -/
theorem setTermios_setting (d : TtyDevice A) (payload : List UInt8) :
    (d.setTermios payload).compat.setting = Function.update d.compat.setting .termios
      ((payload ++ List.replicate TTY_TERMIOS_SIZE 0).take TTY_TERMIOS_SIZE) := by
  funext k
  cases k <;> rfl

/-- The window size that is set is the payload, as far as its record goes. -/
theorem setWinsize_setting (d : TtyDevice A) {payload : List UInt8}
    (h : WINSIZE_SIZE ≤ payload.length) :
    (d.setWinsize (.ofWinsizeBytes payload)).compat.setting =
      Function.update d.compat.setting .winsize (payload.take WINSIZE_SIZE) := by
  funext k
  cases k with
  | winsize => exact winsize_stored payload h
  | termios => rfl
  | pgrp => rfl

/-- The foreground group that is set has the bytes of its number. -/
theorem setForegroundPgrp_setting (d : TtyDevice A) (pgrp : Int) :
    (d.setForegroundPgrp pgrp).compat.setting =
      Function.update d.compat.setting .pgrp (i32Bytes pgrp) := by
  funext k
  cases k <;> rfl

/-- A command changes the setting it names, by its payload, whatever the host answers. -/
theorem command_setting (d : TtyDevice A) (host : Except Err Unit) (c : TtyCmd)
    (input : Option (List UInt8)) (outLen : Nat) :
    (d.command host input outLen c).2.compat.setting =
      TtySettings.put d.compat.setting (c.change input) := by
  cases input with
  | none => cases c <;> rfl
  | some payload =>
    cases c with
    | tcsets => exact setTermios_setting d payload
    | tcsetsw => exact setTermios_setting d payload
    | tcsetsf => exact setTermios_setting d payload
    -- a payload that is too short is refused, and no setting changes
    | tiocswinsz =>
      by_cases hlen : WINSIZE_SIZE ≤ payload.length
      · have hset := setWinsize_setting d hlen
        simpa [TtyDevice.command, TtyCmd.change, TtyCmd.sets, TtySetting.store, TtySetting.size,
          TtySettings.put, Nat.not_lt.mpr hlen, hlen] using hset
      · have hstore : TtySetting.winsize.store payload = none := if_neg hlen
        simp [TtyDevice.command, TtyCmd.change, TtyCmd.sets, TtySettings.put, hstore,
          Nat.not_le.mp hlen]
    -- the group of the payload is the number its bytes stand for
    | tiocspgrp =>
      by_cases hlen : I32_SIZE ≤ payload.length
      · have hbytes : i32Bytes (i32OfBytes (payload.take 4)) = payload.take I32_SIZE :=
          i32_stored _ (by rw [List.length_take]; exact Nat.min_eq_left hlen)
        have hset := setForegroundPgrp_setting d (i32OfBytes (payload.take 4))
        rw [hbytes] at hset
        simpa [TtyDevice.command, TtyCmd.change, TtyCmd.sets, TtySetting.store, TtySetting.size,
          TtySettings.put, Nat.not_lt.mpr hlen, hlen] using hset
      · have hstore : TtySetting.pgrp.store payload = none := if_neg hlen
        simp [TtyDevice.command, TtyCmd.change, TtyCmd.sets, TtySettings.put, hstore,
          Nat.not_le.mp hlen]
    | tcgets => rfl
    | tiocgwinsz => rfl
    | tiocgpgrp => rfl
    | tiocgsid => rfl
    | tiocsctty => rfl
    | tiocnotty => rfl

/-- The device refines the store of settings, one operation after the other. -/
theorem after_setting (d : TtyDevice A) (op : TtyOp) :
    (d.after op).compat.setting = TtySettings.put d.compat.setting op.change := by
  cases op with
  | read len => exact funext fun k => (SameSettings.read d len).setting k
  | write buf => exact funext fun k => (SameSettings.write d buf).setting k
  | poll => exact funext fun k => (SameSettings.pollReadable d).setting k
  | ioctl host cmd input outLen =>
    show (d.ioctlEx host cmd input outLen).2.compat.setting = TtySettings.put d.compat.setting
      ((decodeTtyCmd cmd).bind fun c => c.change input)
    unfold TtyDevice.ioctlEx
    cases decodeTtyCmd cmd with
    | none => rfl
    | some c => exact command_setting d host c input outLen
  | setForegroundPgrp pgrp =>
    have hset := setForegroundPgrp_setting d pgrp.toInt
    rw [i32Bytes, BitVec.ofInt_toInt] at hset
    exact hset

/-- A request that reports a setting answers with the bytes of it, and changes nothing. -/
theorem ioctlEx_answer (d : TtyDevice A) (host : Except Err Unit) {cmd : Nat} (outLen : Nat)
    (input : Option (List UInt8)) {k : TtySetting}
    (h : (decodeTtyCmd cmd).bind TtyCmd.gets = some k) :
    d.ioctlEx host cmd input outLen = (.ok (0, (d.compat.setting k).take outLen), d) := by
  obtain ⟨c, hcmd, hk⟩ := Option.bind_eq_some_iff.mp h
  rw [TtyDevice.ioctlEx, hcmd]
  cases c <;> cases hk <;> rfl

/-- The device after a run of operations. -/
def TtyDevice.afterAll (d : TtyDevice A) (ops : List TtyOp) : TtyDevice A :=
  ops.foldl TtyDevice.after d

/-- No operation of the run changes the setting. -/
def LeavesAlone (k : TtySetting) (ops : List TtyOp) : Prop :=
  ∀ op ∈ ops, ∀ bytes, op.change ≠ some (k, bytes)

/-- A run that leaves a setting alone leaves it as it was, whatever else it does. -/
theorem afterAll_alone {k : TtySetting} {ops : List TtyOp} (h : LeavesAlone k ops)
    (d : TtyDevice A) : (d.afterAll ops).compat.setting k = d.compat.setting k := by
  induction ops generalizing d with
  | nil => rfl
  | cons op ops ih =>
    have hrest : LeavesAlone k ops := fun o ho => h o (List.mem_cons_of_mem op ho)
    have hop : (d.after op).compat.setting k = d.compat.setting k := by
      rw [after_setting]
      cases hc : op.change with
      | none => rfl
      | some c =>
        have hne : k ≠ c.1 := fun e => h op List.mem_cons_self c.2 (by rw [hc, e])
        exact Function.update_of_ne hne _ _
    exact (ih hrest (d.after op)).trans hop

/-- The last change of a setting is what every later request reports, as much of it as is asked
for, and without a change it is what there was at the start. This holds over every run of reads,
writes, polls and requests and for every answer of the host: typed bytes, output and changes of the
other settings in between do not matter. An operation that stores nothing changes no setting. -/
theorem last_setting_reported (d : TtyDevice A) {k : TtySetting} (host : Except Err Unit)
    (cmd outLen : Nat) (input : Option (List UInt8))
    (hget : (decodeTtyCmd cmd).bind TtyCmd.gets = some k) :
    (∀ before op after bytes, op.change = some (k, bytes) → LeavesAlone k after →
      (d.afterAll (before ++ op :: after)).ioctlEx host cmd input outLen =
        (.ok (0, bytes.take outLen), d.afterAll (before ++ op :: after))) ∧
    (∀ ops, LeavesAlone k ops →
      (d.afterAll ops).ioctlEx host cmd input outLen =
        (.ok (0, (d.compat.setting k).take outLen), d.afterAll ops)) ∧
    ∀ op, op.change = none → (d.after op).compat.setting = d.compat.setting := by
  refine ⟨?_, ?_, ?_⟩
  · intro before op after bytes hop hafter
    have hset : (d.afterAll (before ++ op :: after)).compat.setting k = bytes := by
      have hsplit : d.afterAll (before ++ op :: after)
          = ((d.afterAll before).after op).afterAll after := by
        rw [TtyDevice.afterAll, List.foldl_append]
        rfl
      rw [hsplit, afterAll_alone hafter, after_setting, hop]
      exact Function.update_self k bytes ((d.afterAll before).compat.setting)
    rw [ioctlEx_answer _ host outLen input hget, hset]
  · intro ops hops
    rw [ioctlEx_answer _ host outLen input hget, afterAll_alone hops]
  · intro op hop
    rw [after_setting, hop]
    rfl

/-- A window size is reported after the host refused it, and after a change of the modes. Without a
request for one the size at the start is reported. -/
theorem last_setting_reported_sampleTty :
    (sampleTty.afterAll [.poll, .ioctl (.error .ioError) TIOCSWINSZ
      (some [24, 0, 80, 0, 1, 0, 2, 0]) 0,
        .ioctl (.ok ()) TCSETS (some [1]) 0]).ioctlEx (.ok ()) TIOCGWINSZ none 4 =
      (.ok (0, [24, 0, 80, 0]), sampleTty.afterAll
        [.poll, .ioctl (.error .ioError) TIOCSWINSZ (some [24, 0, 80, 0, 1, 0, 2, 0]) 0,
          .ioctl (.ok ()) TCSETS (some [1]) 0]) ∧
    (sampleTty.afterAll [.ioctl (.ok ()) TCSETS (some [1]) 0]).ioctlEx (.ok ()) TIOCGWINSZ none 4 =
      (.ok (0, (sampleTty.compat.setting .winsize).take 4),
        sampleTty.afterAll [.ioctl (.ok ()) TCSETS (some [1]) 0]) := by
  have hafter : LeavesAlone .winsize [.ioctl (.ok ()) TCSETS (some [1]) 0] := by
    intro op hop bytes hchange
    rcases List.mem_singleton.mp hop with rfl
    cases hchange
  have hreported := last_setting_reported sampleTty (k := .winsize) (.ok ()) TIOCGWINSZ 4 none rfl
  refine ⟨?_, hreported.2.1 [.ioctl (.ok ()) TCSETS (some [1]) 0] hafter⟩
  exact hreported.1 [.poll] (.ioctl (.error .ioError) TIOCSWINSZ
    (some [24, 0, 80, 0, 1, 0, 2, 0]) 0)
    [.ioctl (.ok ()) TCSETS (some [1]) 0] [24, 0, 80, 0, 1, 0, 2, 0] rfl hafter

/-! ### Polls

A poll that finds nothing to read asks the host for a chunk and types it. A read would have asked
for the same chunk, so nobody notices that a poll came first.
-/

/-- The device with other answers of the host to polls and to reads. -/
def TtyDevice.asking (d : TtyDevice A) (ps : List (Except Err Bool))
    (rs : List (Except Err (List UInt8))) : TtyDevice A :=
  { d with polls := ps, reads := rs }

/-- The device with other answers of the host to polls. -/
def TtyDevice.withPolls (d : TtyDevice A) (ps : List (Except Err Bool)) : TtyDevice A :=
  d.asking ps d.reads

section Asking

variable (d : TtyDevice A) (ps : List (Except Err Bool)) (qs : List (Except Err (List UInt8)))

/-- A write does not look at the answers of the host to polls and reads. -/
theorem write_asking (buf : List UInt8) :
    (d.asking ps qs).write buf = ((d.write buf).1, (d.write buf).2.asking ps qs) := by
  unfold TtyDevice.write
  split
  · rfl
  · dsimp only [TtyDevice.asking]
    split <;> rfl

/-- Input with its echo does not look at the answers of the host to polls and reads. -/
theorem feedEcho_asking (input : List UInt8) :
    (d.asking ps qs).feedEcho input = ((d.feedEcho input).1,
      (d.feedEcho input).2.asking ps qs) := by
  have hwrite := write_asking { d with compat := (feedInput d.compat input).1 } ps qs
    (feedInput d.compat input).2
  unfold TtyDevice.feedEcho
  dsimp only [TtyDevice.asking] at hwrite ⊢
  split
  · rfl
  · rw [hwrite]

/-- The loop of a read has its answers as an argument, and does not look at the others. -/
theorem readLoop_asking (len : Nat) (rs : List (Except Err (List UInt8))) :
    TtyDevice.readLoop len rs (d.asking ps qs) =
      ((TtyDevice.readLoop len rs d).1, (TtyDevice.readLoop len rs d).2.withPolls ps) := by
  induction rs generalizing d qs with
  | nil =>
    by_cases hready : (takeReadable d.compat len).1 = []
    · rw [readLoop_stuck hready, readLoop_stuck (d := d.asking ps qs) hready]
      rfl
    · rw [readLoop_ready [] hready, readLoop_ready [] (d := d.asking ps qs) hready]
      rfl
  | cons r rs ih =>
    by_cases hready : (takeReadable d.compat len).1 = []
    · cases r with
      | error e =>
        rw [readLoop_error e rs hready, readLoop_error e rs (d := d.asking ps qs) hready]
        rfl
      | ok input =>
        rw [readLoop_wait input rs hready, readLoop_wait input rs (d := d.asking ps qs) hready,
          feedEcho_asking]
        -- the chunk is typed alike, and the loop goes on or waits for the echo
        split
        · exact ih _ _
        · rfl
    · rw [readLoop_ready _ hready, readLoop_ready _ (d := d.asking ps qs) hready]
      rfl

/-- Polls are not answered by a read. -/
theorem read_withPolls (len : Nat) :
    (d.withPolls ps).read len = ((d.read len).1, (d.read len).2.withPolls ps) := by
  unfold TtyDevice.read
  split
  · rfl
  · exact readLoop_asking d ps d.reads len d.reads

end Asking

/-- What a positive read takes, and whether there is something to read now. -/
theorem takeReadable_eq_nil {s : TtyCompatState A} {len : Nat} (hlen : 0 < len) :
    (takeReadable s len).1 = [] ↔ canReadNow s = false := by
  unfold takeReadable
  by_cases hnow : canReadNow s = true
  · have hbuf : s.readableBuf ≠ [] := by
      intro h
      rw [canReadNow, if_pos h] at hnow
      cases hnow
    have hif : ¬ (len = 0 ∨ ¬ canReadNow s = true) := by
      rintro (h | h)
      · omega
      · exact h hnow
    rw [if_neg hif, hnow]
    refine iff_of_false (fun h => ?_) (by decide)
    rcases List.take_eq_nil_iff.mp h with h | h
    · omega
    · exact hbuf h
  · rw [if_pos (Or.inr hnow)]
    exact iff_of_true rfl (by simpa using hnow)

/-- A poll that answers: what it says of the device it leaves, and what a read gets after it. -/
structure PollSeen (d d' : TtyDevice A) (b : Bool) : Prop where
  ready : canReadNow d'.compat = b
  same : ∀ len, 0 < len → d'.read len = ((d.read len).1, (d.read len).2.withPolls d'.polls)

/-- What a poll that answers has seen of the device. -/
theorem pollReadable_seen {d d' : TtyDevice A} {b : Bool}
    (h : d.pollReadable = (some (.ok b), d')) : PollSeen d d' b := by
  unfold TtyDevice.pollReadable at h
  by_cases hnow : canReadNow d.compat = true
  · rw [if_pos hnow] at h
    cases h
    exact ⟨hnow, fun len _ => read_withPolls d d.polls len⟩
  · rw [if_neg hnow] at h
    have hnow' : canReadNow d.compat = false := by simpa using hnow
    cases hp : d.polls with
    | nil => rw [hp] at h; cases h
    | cons p ps =>
      rw [hp] at h
      match p with
      | .error e => cases h
      | .ok false =>
        cases h
        exact ⟨hnow', fun len _ => read_withPolls d ps len⟩
      | .ok true =>
        cases hr : d.reads with
        | nil => rw [hr] at h; cases h
        | cons r rs =>
          rw [hr] at h
          cases r with
          | error e => cases h
          | ok input =>
            have hready : ∀ len, 0 < len → (takeReadable d.compat len).1 = [] :=
              fun len hlen => (takeReadable_eq_nil hlen).mpr hnow'
            -- a read of the device before the poll types the same chunk first
            have hread : ∀ len, 0 < len → d.read len =
                if (d.feedEcho (input.take 256)).1 then
                  TtyDevice.readLoop len rs (d.feedEcho (input.take 256)).2
                else (none, { (d.feedEcho (input.take 256)).2 with reads := rs }) := by
              intro len hlen
              rw [TtyDevice.read, if_neg (by omega), hr, readLoop_wait input rs (hready len hlen)]
            have hfeed := feedEcho_asking d ps rs (input.take 256)
            by_cases hnil : input.take 256 = []
            · dsimp only at h
              rw [if_pos hnil] at h
              cases h
              refine ⟨hnow', ?_⟩
              intro len hlen
              rw [hread len hlen, hnil, feedEcho_nil, if_pos rfl]
              show TtyDevice.read (d.asking ps rs) len = _
              rw [TtyDevice.read, if_neg (by omega)]
              exact readLoop_asking d ps rs len rs
            · dsimp only at h
              rw [if_neg hnil] at h
              have hfed : TtyDevice.feedEcho { d with polls := ps, reads := rs } (input.take 256) =
                  ((d.feedEcho (input.take 256)).1,
                    (d.feedEcho (input.take 256)).2.asking ps rs) := hfeed
              rw [hfed] at h
              dsimp only at h
              split at h
              · rename_i hback
                cases h
                refine ⟨rfl, ?_⟩
                intro len hlen
                rw [hread len hlen, if_pos hback, TtyDevice.read, if_neg (by omega)]
                exact readLoop_asking _ ps rs len rs
              · cases h

/-- The results of the reads of a run. A `none` is a poll, and `some len` a read into a buffer of
`len` bytes. -/
def TtyDevice.pollRun (d : TtyDevice A) :
    List (Option Nat) → List (Option (Except Err (List UInt8)))
  | [] => []
  | none :: ops => d.pollReadable.2.pollRun ops
  | some len :: ops => (d.read len).1 :: (d.read len).2.pollRun ops

/-- Every poll of the run comes back with an answer. -/
def PollsAnswer : List (Option Nat) → TtyDevice A → Prop
  | [], _ => True
  | none :: ops, d => (∃ b, d.pollReadable.1 = some (.ok b)) ∧ PollsAnswer ops d.pollReadable.2
  | some len :: ops, d => PollsAnswer ops (d.read len).2

/-- Reads do not look at the answers of the host to polls. -/
theorem readRun_withPolls (lens : List Nat) (d : TtyDevice A) (ps : List (Except Err Bool)) :
    (d.withPolls ps).readRun lens = d.readRun lens := by
  induction lens generalizing d with
  | nil => rfl
  | cons len lens ih =>
    rw [TtyDevice.readRun, TtyDevice.readRun, read_withPolls, ih]

/-- The reads after a poll get what they would get without it. -/
theorem PollSeen.readRun {d d' : TtyDevice A} {b : Bool} (h : PollSeen d d' b) (lens : List Nat) :
    d'.readRun lens = d.readRun lens := by
  induction lens with
  | nil => rfl
  | cons len lens ih =>
    rw [TtyDevice.readRun, TtyDevice.readRun]
    by_cases hlen : 0 < len
    · rw [h.same len hlen, readRun_withPolls]
    · -- an empty read asks nothing of the device
      have hzero : ∀ e : TtyDevice A, e.read len = (some (.ok []), e) := fun e => if_pos (by omega)
      rw [hzero, hzero, ih]

/-- What a poll says is what a reader finds, and what it does nobody notices: after the answer
`true` a read of any positive size gets bytes without asking the host, after `false` it has to
ask, and over every run of reads and polls that come back the reads get what they would get
without the polls. -/
theorem polls_exact_and_transparent (d : TtyDevice A) :
    (∀ b d' len, d.pollReadable = (some (.ok b), d') → 0 < len →
      (b = true → ∃ bytes, bytes ≠ [] ∧
        ((d'.asking d'.polls []).read len).1 = some (.ok bytes)) ∧
      (b = false → ((d'.asking d'.polls []).read len).1 = none)) ∧
    ∀ ops, PollsAnswer ops d → d.pollRun ops = d.readRun (ops.filterMap id) := by
  constructor
  · intro b d' len hpoll hlen
    -- ready is what the next read finds in the buffer
    have hready : canReadNow d'.compat = b := (pollReadable_seen hpoll).ready
    have hread : (d'.asking d'.polls []).read len =
        TtyDevice.readLoop len [] (d'.asking d'.polls []) := if_neg (by omega)
    constructor
    · rintro rfl
      have hsome : (takeReadable d'.compat len).1 ≠ [] := by
        rw [Ne, takeReadable_eq_nil hlen, hready]
        decide
      refine ⟨(takeReadable d'.compat len).1, hsome, ?_⟩
      rw [hread, readLoop_ready [] (d := d'.asking d'.polls []) hsome]
      rfl
    · rintro rfl
      have hnil : (takeReadable d'.compat len).1 = [] := (takeReadable_eq_nil hlen).mpr hready
      rw [hread, readLoop_stuck (d := d'.asking d'.polls []) hnil]
  -- each poll leaves the device as a read sees it
  · intro ops
    induction ops generalizing d with
    | nil => intro _; rfl
    | cons op ops ih =>
      intro h
      cases op with
      | some len =>
        have hrest : d.pollRun (some len :: ops) =
            (d.read len).1 :: (d.read len).2.pollRun ops := rfl
        rw [hrest, ih _ h]
        rfl
      | none =>
        obtain ⟨⟨b, hb⟩, hrest⟩ := h
        have hseen : PollSeen d d.pollReadable.2 b := pollReadable_seen (by rw [← hb])
        have hpoll : d.pollRun (none :: ops) = d.pollReadable.2.pollRun ops := rfl
        rw [hpoll, ih _ hrest, hseen.readRun]
        rfl

/-- The host has a line for the sample terminal, and takes the echo of it. -/
def sampleTyped : TtyDevice sampleParser :=
  { sampleTty with
    polls := [.ok true]
    reads := [.ok [0x61, 0x0a]]
    writes := [⟨none, 16, 0⟩] }

/-- A poll finds the line, and two reads get it. -/
theorem polls_exact_and_transparent_line :
    sampleTyped.pollRun [none, some 1, some 4] = sampleTyped.readRun [1, 4] :=
  (polls_exact_and_transparent sampleTyped).2 [none, some 1, some 4]
    ⟨⟨true, by decide +kernel⟩, trivial⟩

end Ape
