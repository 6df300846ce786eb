import Ape.Lib.Records
import Ape.Proofs.Bytes
import Ape.Proofs.Handles
import Ape.Proofs.StoredBytes
import Mathlib.Data.List.TakeWhile

/-!
# `Ape.Proofs.Dirents`: what `getdents64` stores, and what a listing loses

A reader of a directory walks over the bytes in its buffer by the length in each record.
`decodeDirents` is that reader. `getdents_round_trip` proves that after the call it finds a prefix
of the entries that the file system handed out.

The entries past the prefix are in nothing that the server keeps: the handle goes back into the
table as it was, and the file system has moved on. `listing_complete_iff` is about the calls of a
whole listing. Nothing is lost exactly when the records of the entries of each call fit in its
buffer.
-/

set_option autoImplicit false

namespace Ape

open Ape.Lib Cmd

/-! ### The reader -/

/-- A record as the reader sees it. -/
structure Dirent where
  ino : Nat
  off : Nat
  reclen : Nat
  type : UInt8
  name : List UInt8
  deriving DecidableEq

/-- `d_reclen` of the record at the start. -/
def direntLen (bytes : List UInt8) : Option Nat :=
  if bytes.length < DIRENT64_FIXED_SIZE then none else some (leNat ((bytes.drop 16).take 2))

/-- The fields of a record. The name ends at the first NUL. -/
def parseDirent (record : List UInt8) : Dirent where
  ino := leNat (record.take 8)
  off := leNat ((record.drop 8).take 8)
  reclen := leNat ((record.drop 16).take 2)
  type := (record.drop 18).headD 0
  name := (record.drop 19).takeWhile (· ≠ 0)

/-- The records of a buffer, one after the other. -/
def decodeDirents (bytes : List UInt8) : Option (List Dirent) :=
  (splitRecords direntLen bytes.length bytes).map (List.map parseDirent)

/-! ### One record -/

namespace DEntry

variable (e : DEntry)

/-- What the reader is to see of an entry. -/
def dirent : Dirent := ⟨e.dIno.toNat, e.dOff.toNat, e.reclen, e.dType, e.name⟩

/-- A record covers the fixed fields, the name and its terminator. -/
theorem covers_name : DIRENT64_FIXED_SIZE + e.name.length + 1 ≤ e.reclen := by
  unfold reclen alignUp8
  omega

/-- A record has a multiple of eight bytes. -/
theorem eight_dvd_reclen : 8 ∣ e.reclen := ⟨_, Nat.mul_comm _ 8⟩

/-- The parts of a record. -/
theorem record_eq : ∃ pad, e.record = leBytes 8 e.dIno.toNat ++ (leBytes 8 e.dOff.toNat ++
    (leBytes 2 e.reclen ++ (e.dType :: (e.name ++ 0 :: List.replicate pad 0)))) :=
  ⟨_, by simp only [record, List.append_assoc, List.cons_append, List.nil_append]; rfl⟩

/-- A record is as long as it says. -/
@[simp] theorem length_record : e.record.length = e.reclen := by
  have hcovers := e.covers_name
  unfold DIRENT64_FIXED_SIZE at hcovers
  simp only [record, List.length_append, length_leBytes, List.length_replicate, List.length_cons,
    List.length_nil]
  omega

/-- A record is not empty. -/
theorem record_ne_nil : e.record ≠ [] := by
  have hcovers := e.covers_name
  rw [← List.length_pos_iff, length_record]
  omega

/-- The bytes of `d_reclen`, in a record with more behind it. -/
theorem reclen_bytes (rest : List UInt8) :
    ((e.record ++ rest).drop 16).take 2 = leBytes 2 e.reclen := by
  obtain ⟨pad, hrecord⟩ := e.record_eq
  rw [hrecord, List.append_assoc, List.append_assoc,
    ← List.append_assoc (leBytes 8 _) (leBytes 8 _),
    List.drop_left' (by simp), List.append_assoc, List.take_left' (by simp)]

/-- A record names its length. -/
theorem direntLen_record (hfits : e.reclen < 2 ^ 16) (rest : List UInt8) :
    direntLen (e.record ++ rest) = some e.record.length := by
  have hlong : ¬ (e.record ++ rest).length < DIRENT64_FIXED_SIZE := by
    have hcovers := e.covers_name
    rw [List.length_append, length_record]
    omega
  rw [direntLen, if_neg hlong, reclen_bytes, leNat_leBytes_of_lt hfits, length_record]

/-- The reader sees the fields of the entry. -/
theorem parseDirent_record (hfits : e.reclen < 2 ^ 16) : parseDirent e.record = e.dirent := by
  obtain ⟨pad, hrecord⟩ := e.record_eq
  have hreclen : leNat ((e.record.drop 16).take 2) = e.reclen := by
    have hbytes := e.reclen_bytes []
    rw [List.append_nil] at hbytes
    rw [hbytes, leNat_leBytes_of_lt hfits]
  have hino : leNat (e.record.take 8) = e.dIno.toNat := by
    rw [hrecord, List.take_left' (by simp)]
    exact leNat_leBytes_of_lt e.dIno.toNat_lt
  have hoff : leNat ((e.record.drop 8).take 8) = e.dOff.toNat := by
    rw [hrecord, List.drop_left' (by simp), List.take_left' (by simp)]
    exact leNat_leBytes_of_lt e.dOff.toNat_lt
  have htail : e.record.drop 18 = e.dType :: (e.name ++ 0 :: List.replicate pad 0) := by
    rw [hrecord, ← List.append_assoc, ← List.append_assoc, List.drop_left' (by simp)]
  -- the name has no null byte of its own, so the padding ends it
  have hname : (e.record.drop 19).takeWhile (· ≠ 0) = e.name := by
    have hall : ∀ b ∈ e.name, (decide (b ≠ 0)) = true := fun b hb =>
      List.mem_takeWhile_imp (p := fun b => decide (b ≠ 0)) (l := e.dName) hb
    rw [show e.record.drop 19 = (e.record.drop 18).drop 1 by rw [List.drop_drop], htail,
      List.drop_one, List.tail_cons, List.takeWhile_append_of_pos hall, List.takeWhile_cons_of_neg
      (by simp), List.append_nil]
  rw [parseDirent, hreclen, hino, hoff, htail, hname]
  rfl

end DEntry

/-! ### The loop -/

/-- The records of a list of entries. -/
def direntBytes (entries : List DEntry) : List UInt8 := (entries.map DEntry.record).flatten

/-- The records have their lengths in total. -/
theorem length_direntBytes (entries : List DEntry) :
    (direntBytes entries).length = (entries.map DEntry.reclen).sum := by
  induction entries with
  | nil => rfl
  | cons e entries ih =>
    simp only [direntBytes, List.map_cons, List.flatten_cons, List.length_append,
      DEntry.length_record,
      List.sum_cons] at ih ⊢
    rw [ih]

/-- The loop appends the records of a prefix, and stays within the buffer. -/
theorem packDirents_ok {count : Nat} {entries : List DEntry} {packed bytes : List UInt8}
    (h : packDirents count entries packed = .ok bytes) (hfits : packed.length ≤ count) :
    ∃ taken, taken <+: entries ∧ (∀ e ∈ taken, e.reclen < 2 ^ 16) ∧
      bytes = packed ++ direntBytes taken ∧ bytes.length ≤ count := by
  induction entries generalizing packed with
  | nil =>
    cases h
    exact ⟨[], List.prefix_refl _, by simp, by simp [direntBytes], hfits⟩
  | cons e rest ih =>
    unfold packDirents at h
    -- a record too long for its length field is an error, and a full buffer ends the packing
    split at h
    · cases h
    rename_i hsmall
    split at h
    · cases h
      exact ⟨[], List.nil_prefix, by simp, by simp [direntBytes], hfits⟩
    rename_i hroom
    have hfits' : (packed ++ e.record).length ≤ count := by
      rw [List.length_append, DEntry.length_record]
      omega
    obtain ⟨taken, hprefix, hsizes, hbytes, hlen⟩ := ih h hfits'
    refine ⟨e :: taken, List.cons_prefix_cons.mpr ⟨rfl, hprefix⟩, ?_, ?_, hlen⟩
    · intro f hf
      rcases List.mem_cons.mp hf with rfl | hf
      · omega
      · exact hsizes f hf
    · rw [hbytes, List.append_assoc]
      rfl

/-- Entries whose records fit are all packed. -/
theorem packDirents_fits {count : Nat} {entries : List DEntry} {packed : List UInt8}
    (hsizes : ∀ e ∈ entries, e.reclen < 2 ^ 16)
    (hfits : packed.length + (entries.map DEntry.reclen).sum ≤ count) :
    packDirents count entries packed = .ok (packed ++ direntBytes entries) := by
  induction entries generalizing packed with
  | nil => simp [packDirents, direntBytes]
  | cons e rest ih =>
    have hsmall := hsizes e List.mem_cons_self
    rw [List.map_cons, List.sum_cons] at hfits
    rw [packDirents, if_neg (by omega), if_neg (by omega),
      ih (fun f hf => hsizes f (List.mem_cons_of_mem e hf))
        (by rw [List.length_append, DEntry.length_record]; omega), List.append_assoc]
    rfl

/-- The reader finds the entries whose records were packed. -/
theorem decodeDirents_direntBytes {entries : List DEntry} (h : ∀ e ∈ entries, e.reclen < 2 ^ 16) :
    decodeDirents (direntBytes entries) = some (entries.map DEntry.dirent) := by
  have hne : ∀ r ∈ entries.map DEntry.record, r ≠ [] := by
    intro r hr
    obtain ⟨e, -, rfl⟩ := List.mem_map.mp hr
    exact e.record_ne_nil
  have hlen : ∀ r ∈ entries.map DEntry.record, ∀ rest, direntLen (r ++ rest) = some r.length := by
      intro r hr rest
      obtain ⟨e, he, rfl⟩ := List.mem_map.mp hr
      exact e.direntLen_record (h e he) rest
  rw [decodeDirents, direntBytes, splitRecords_flatten hne hlen, Option.map_some, List.map_map]
  exact congrArg some (List.map_congr_left fun e he => e.parseDirent_record (h e he))

/-! ### The call -/

/-- The state in which the answer of the file system has come. -/
def World.asked (w : World) (pid fd : Nat) : World :=
  { w.handleOut pid fd with tick := w.tick + 1 }

/-- The handle of a call is in no memory. -/
theorem World.memoryOf_asked (w : World) (pid fd : Nat) : w.MemoryOf (w.asked pid fd) :=
  memoryOf_keeps (c := modifyFiles pid (·.removeFd fd)) (modifyFiles_frames pid (·.removeFd fd))
    (modifyFiles_keeps pid (·.removeFd fd)) w (.refl w)

/-- The outcome of the copy of the packed records, with their length as the value. -/
def copyDirents (pid dirp : Nat) (packed : List UInt8) (w : World) : Except Err Nat :=
  if packed = [] then .ok 0
  else (((copyToUser pid dirp packed).run w).1).map fun _ => packed.length

section Call

variable {dents : Ext → List DEntry} {w : World} {pid fd dirp count : Nat}

/-- What the state after a call is to the state before: the records were stored. -/
def World.DirentsStored (w : World) (pid dirp : Nat) (packed : List UInt8) (w' : World) : Prop :=
  if packed = [] then w'.readView = w.readView else w.Copied pid dirp packed (.ok ()) w'

/-- What comes after the copy leaves the memory. -/
theorem World.DirentsStored.congr {packed : List UInt8} {v w' : World}
    (h : w.DirentsStored pid dirp packed v) (hv : w'.readView = v.readView) :
    w.DirentsStored pid dirp packed w' := by
  unfold World.DirentsStored at h ⊢
  split at h
  · rename_i hnil
    rw [if_pos hnil]
    exact hv.trans h
  · rename_i hne
    rw [if_neg hne]
    exact h.congr hv

/-- The records are in the buffer after the call. -/
theorem World.DirentsStored.held {packed : List UInt8} {w' : World}
    (h : w.DirentsStored pid dirp packed w') (hinv : FrameInv w) (hsound : w.TablesSound pid) :
    Memory.HoldsBytes (w'.userByte pid) dirp packed := by
  unfold World.DirentsStored at h
  split at h
  · rename_i hnil
    rw [hnil]
    trivial
  · exact h.held rfl hinv hsound

/-- A call that reaches the file system packs the entries and copies the records. -/
theorem doGetdents64_outcome (hcount : DIRENT64_MIN_RECLEN ≤ count) (hdirp : dirp ≠ 0)
    (hopen : w.openAt pid fd ≠ none) (hanswer : (w.env w.tick).err = none) :
    ((doGetdents64 dents pid fd dirp count).run w).1 =
        ((packDirents count (dents (w.env w.tick)) []).bind fun packed =>
          copyDirents pid dirp packed (w.asked pid fd)) ∧
      ∀ packed n, packDirents count (dents (w.env w.tick)) [] = .ok packed →
        copyDirents pid dirp packed (w.asked pid fd) = .ok n →
        w.DirentsStored pid dirp packed ((doGetdents64 dents pid fd dirp count).run w).2 := by
  obtain ⟨handle, hhandle⟩ := Option.ne_none_iff_exists'.mp hopen
  have hask : (inFst ext : H Ext).run (w.handleOut pid fd, handle) =
      (.ok (w.env w.tick), (w.asked pid fd, handle)) := by
    have hext : ext.run (w.handleOut pid fd) = (.ok (w.env w.tick), w.asked pid fd) :=
      run_ext_ok hanswer
    rw [run_inFst, hext]
  unfold DIRENT64_MIN_RECLEN at hcount
  rw [doGetdents64, if_neg (by omega), if_neg hdirp, if_neg (by unfold DIRENT64_MIN_RECLEN; omega),
    run_withFdHandleMut hhandle, run_bind_ok hask]
  rcases hpack : packDirents count (dents (w.env w.tick)) [] with e | packed
  · exact ⟨rfl, fun packed n h => by cases h⟩
  rw [show (Except.ok packed).bind (fun packed => copyDirents pid dirp packed (w.asked pid fd))
    = copyDirents pid dirp packed (w.asked pid fd) from rfl]
  -- what is left of the call is the copy, and the handle goes back after it
  have hrest : ∀ r : Except Err Nat × World × FileHandle,
      (when (packed ≠ []) (inFst (copyToUser pid dirp packed)) >>= fun _ =>
        pure packed.length : H Nat).run (w.asked pid fd, handle) = r →
      r.1 = copyDirents pid dirp packed (w.asked pid fd) ∧
        (∀ n, r.1 = .ok n → w.DirentsStored pid dirp packed r.2.1) := by
    rintro r rfl
    unfold copyDirents World.DirentsStored
    by_cases hnil : packed = []
    · rw [when_neg (not_not.mpr hnil), if_pos hnil, hnil, if_pos rfl]
      exact ⟨rfl, fun _ _ => (w.memoryOf_asked pid fd).1⟩
    rw [when_pos hnil, if_neg hnil, if_neg hnil]
    rcases hcopy : (copyToUser pid dirp packed).run (w.asked pid fd) with ⟨e | u, w'⟩
    · rw [run_bind_error (by rw [run_inFst, hcopy])]
      exact ⟨rfl, fun n h => by cases h⟩
    · rw [run_bind_ok (by rw [run_inFst, hcopy])]
      exact ⟨rfl, fun _ _ => (w.memoryOf_asked pid fd).copied hcopy rfl⟩
  obtain ⟨hout, hstored⟩ := hrest _ rfl
  refine ⟨hout, fun packed' n hpacked hok => ?_⟩
  cases hpacked
  have hback : ∀ (v : World) (h : FileHandle), (v.handleBack pid fd h).readView = v.readView :=
    fun v h => modifyFiles_frames (V := World.readView) pid (·.insertFd fd h) v
  exact (hstored n (hout.trans hok)).congr (hback _ _)

/-- A call that does not reach the file system fails. -/
theorem doGetdents64_refused (hcount : DIRENT64_MIN_RECLEN ≤ count)
    (h : ¬ (dirp ≠ 0 ∧ w.openAt pid fd ≠ none ∧ (w.env w.tick).err = none)) :
    ∃ e, ((doGetdents64 dents pid fd dirp count).run w).1 = .error e := by
  unfold DIRENT64_MIN_RECLEN at hcount
  rw [doGetdents64, if_neg (by omega)]
  by_cases hdirp : dirp = 0
  · exact ⟨.invalidAddress, by rw [if_pos hdirp]; rfl⟩
  rw [if_neg hdirp, if_neg (by unfold DIRENT64_MIN_RECLEN; omega)]
  rcases hopen : w.openAt pid fd with _ | handle
  · obtain ⟨e, hrun⟩ := run_withFdHandleMut_none hopen _
    exact ⟨e, congrArg Prod.fst hrun⟩
  rcases hanswer : (w.env w.tick).err with _ | e
  · exact absurd ⟨hdirp, by rw [hopen]; simp, hanswer⟩ h
  · have hext : (inFst ext : H Ext).run (w.handleOut pid fd, handle) =
        (.error e, ({ w.handleOut pid fd with tick := w.tick + 1, refused := true }, handle)) := by
      have hrefused : ext.run (w.handleOut pid fd) =
          (.error e, { w.handleOut pid fd with tick := w.tick + 1, refused := true }) :=
        run_ext_error hanswer
      rw [run_inFst, hrefused]
    exact ⟨e, by rw [run_withFdHandleMut hopen, run_bind_error hext]⟩

/-- A call that succeeds has packed the entries of its answer and stored the records. -/
theorem doGetdents64_ok (hcount : DIRENT64_MIN_RECLEN ≤ count) {n : Nat}
    (hrun : ((doGetdents64 dents pid fd dirp count).run w).1 = .ok n) :
    ∃ packed, packDirents count (dents (w.env w.tick)) [] = .ok packed ∧
      copyDirents pid dirp packed (w.asked pid fd) = .ok n ∧
      w.DirentsStored pid dirp packed ((doGetdents64 dents pid fd dirp count).run w).2 := by
  by_cases hreach : dirp ≠ 0 ∧ w.openAt pid fd ≠ none ∧ (w.env w.tick).err = none
  · obtain ⟨hout, hstored⟩ := @doGetdents64_outcome dents w pid fd dirp count hcount hreach.1
      hreach.2.1 hreach.2.2
    rw [hout] at hrun
    rcases hpack : packDirents count (dents (w.env w.tick)) [] with e | packed
    · rw [hpack] at hrun
      cases hrun
    · rw [hpack] at hrun
      exact ⟨packed, rfl, hrun, hstored packed n hpack hrun⟩
  · obtain ⟨e, he⟩ : ∃ e, ((doGetdents64 dents pid fd dirp count).run w).1 = .error e :=
      doGetdents64_refused hcount hreach
    rw [hrun] at he
    cases he

/-- A copy that succeeds has the length of the records as its value. -/
theorem copyDirents_ok {packed : List UInt8} {v : World} {n : Nat}
    (h : copyDirents pid dirp packed v = .ok n) :
    n = packed.length ∧ (packed = [] ∨ ((copyToUser pid dirp packed).run v).1 = .ok ()) := by
  unfold copyDirents at h
  split at h
  · rename_i hnil
    cases h
    exact ⟨by rw [hnil]; rfl, .inl hnil⟩
  · rcases hcopy : ((copyToUser pid dirp packed).run v).1 with e | u
    · rw [hcopy] at h
      cases h
    · rw [hcopy] at h
      cases h
      exact ⟨rfl, .inr rfl⟩

end Call

/-- After a successful `getdents64` there are bytes in the buffer, as many as the value of the call
and no more than fit. The memory of the caller is that after the copy of these bytes, so for a
process with sound tables they can be read from the buffer. A reader that walks over them by
`d_reclen` finds a prefix of the entries that the file system returned. The length of each record is
a multiple of 8 and covers the name with its terminator, and the lengths add up to the value of the
call. -/
theorem getdents_round_trip (dents : Ext → List DEntry) (w w' : World) (pid fd dirp count n : Nat)
    (hcount : DIRENT64_MIN_RECLEN ≤ count)
    (hrun : (doGetdents64 dents pid fd dirp count).run w = (.ok n, w')) :
    ∃ bytes records taken,
      w.DirentsStored pid dirp bytes w' ∧
      (FrameInv w → w.TablesSound pid → Memory.HoldsBytes (w'.userByte pid) dirp bytes) ∧
      n = bytes.length ∧ n ≤ count ∧ decodeDirents bytes = some records ∧
      taken <+: dents (w.env w.tick) ∧ records = taken.map DEntry.dirent ∧
      (∀ r ∈ records, 8 ∣ r.reclen ∧ DIRENT64_FIXED_SIZE + r.name.length + 1 ≤ r.reclen) ∧
      (records.map Dirent.reclen).sum = n := by
  obtain ⟨packed, hpack, hcopy, hstored⟩ := doGetdents64_ok hcount (congrArg Prod.fst hrun)
  rw [hrun] at hstored
  obtain ⟨rfl, -⟩ := copyDirents_ok hcopy
  obtain ⟨taken, hprefix, hsizes, hbytes, hlen⟩ := packDirents_ok hpack (Nat.zero_le count)
  rw [List.nil_append] at hbytes
  refine ⟨packed, taken.map DEntry.dirent, taken, hstored, hstored.held, rfl, hlen, ?_, hprefix,
    rfl, ?_, ?_⟩
  · rw [hbytes]
    exact decodeDirents_direntBytes hsizes
  · intro r hr
    obtain ⟨e, -, rfl⟩ := List.mem_map.mp hr
    exact ⟨e.eight_dvd_reclen, e.covers_name⟩
  · rw [hbytes, length_direntBytes, List.map_map]
    rfl

/-- A directory with the entries `a` and `b`. -/
def sampleDents (_ : Ext) : List DEntry := [⟨1, 1, 4, [97, 0, 7]⟩, ⟨2, 2, 8, [98, 0]⟩]

/-- The tables of `init` are sound. -/
theorem sampleBoot_tablesSound : sampleBoot.TablesSound 1 := by
  obtain ⟨mm, hmm, hsound⟩ := @World.sound_of_check sampleBoot 1 (by decide +kernel)
  intro mm' hmm'
  obtain rfl := Option.some.inj (hmm.symm.trans hmm')
  exact hsound

/-- `init` reads both entries into a buffer for two, and finds them there. -/
theorem getdents_round_trip_init :
    ((doGetdents64 sampleDents 1 0 0x3ffff000 48).run sampleBoot).1 = .ok 48 ∧
    ∃ bytes records, Memory.HoldsBytes
        (((doGetdents64 sampleDents 1 0 0x3ffff000 48).run sampleBoot).2.userByte 1)
          0x3ffff000 bytes ∧
      bytes.length = 48 ∧ decodeDirents bytes = some records ∧
      (records.map Dirent.reclen).sum = 48 := by
  have hrun : ((doGetdents64 sampleDents 1 0 0x3ffff000 48).run sampleBoot).1 = .ok 48 := by
    decide +kernel
  obtain ⟨bytes, records, taken, -, hheld, hlen, -, hdecode, -, -, -, hsum⟩ :=
    getdents_round_trip sampleDents sampleBoot _ 1 0 0x3ffff000 48 48 (by decide)
      (Prod.ext hrun rfl)
  exact ⟨hrun, bytes, records, hheld sampleBoot_reachable.frameInv sampleBoot_tablesSound,
    hlen.symm, hdecode, hsum⟩

/-- What is read from a buffer with bytes. -/
theorem Memory.HoldsBytes.filterMap_range {m : Memory} {a : Nat} {bs : List UInt8}
    (h : m.HoldsBytes a bs) : ((List.range bs.length).filterMap fun i => m (a + i)) = bs := by
  induction bs generalizing a with
  | nil => rfl
  | cons b bs ih =>
    have hrest : ∀ i, m (a + (i + 1)) = m (a + 1 + i) := by
      intro i
      rw [Nat.add_assoc, Nat.add_comm 1]
    rw [List.length_cons, List.range_succ_eq_map, List.filterMap_cons_some (by exact h.1),
      List.filterMap_map]
    simp only [Function.comp_def, Nat.succ_eq_add_one, hrest]
    rw [ih h.2]

/-! ### A listing -/

/-- A call that reaches the file system and gets an answer, for a process whose tables are sound. -/
structure DentsCall (dents : Ext → List DEntry) (pid fd dirp : Nat) where
  before : World
  frames : FrameInv before
  tables : before.TablesSound pid
  count : Nat
  enough : DIRENT64_MIN_RECLEN ≤ count
  buffer : dirp ≠ 0
  isOpen : before.openAt pid fd ≠ none
  answered : (before.env before.tick).err = none

namespace DentsCall

variable {dents : Ext → List DEntry} {pid fd dirp : Nat} (c : DentsCall dents pid fd dirp)

/-- The entries that the file system returned and moved past. -/
def entries : List DEntry := dents (c.before.env c.before.tick)

/-- The value of the call. -/
def outcome : Except Err Nat := ((doGetdents64 dents pid fd dirp c.count).run c.before).1

/-- The state after the call. -/
def after : World := ((doGetdents64 dents pid fd dirp c.count).run c.before).2

/-- The bytes that the caller reads from its buffer after the call, as many as the value says. -/
def stored : List UInt8 :=
  match c.outcome with
  | .ok n => (List.range n).filterMap fun i => c.after.userByte pid (dirp + i)
  | .error _ => []

/-- The entries that the reader of the buffer finds. -/
def delivered : List Dirent := (decodeDirents c.stored).getD []

/-- The records of all entries fit in the buffer, and the buffer can be written. -/
structure Fits : Prop where
  sizes : ∀ e ∈ c.entries, e.reclen < 2 ^ 16
  total : (c.entries.map DEntry.reclen).sum ≤ c.count
  stores : c.entries ≠ [] →
    ((copyToUser pid dirp (direntBytes c.entries)).run (c.before.asked pid fd)).1 = .ok ()

/-- Zero means that there were no entries, and a first entry that is too large is an error. -/
structure Honest : Prop where
  zero : c.outcome = .ok 0 → c.entries = []
  large : ∀ e, c.entries.head? = some e → c.count < e.reclen → ∃ err, c.outcome = .error err

/-- What a call did: an error and nothing stored, or a prefix stored. -/
theorem cases : (∃ e, c.outcome = .error e) ∧ c.delivered = [] ∨
    ∃ taken, taken <+: c.entries ∧ c.delivered = taken.map DEntry.dirent ∧
      (∀ e ∈ taken, e.reclen < 2 ^ 16) ∧ (taken.map DEntry.reclen).sum ≤ c.count ∧
      c.outcome = .ok (taken.map DEntry.reclen).sum ∧
      (taken ≠ [] → ((copyToUser pid dirp (direntBytes taken)).run
        (c.before.asked pid fd)).1 = .ok ()) := by
  -- an outcome that is an error stored nothing that counts
  rcases hout : c.outcome with e | n
  · refine .inl ⟨⟨e, rfl⟩, ?_⟩
    unfold delivered stored
    rw [hout]
    rfl
  · obtain ⟨packed, hpack, hcopy, hmemory⟩ := doGetdents64_ok c.enough hout
    obtain ⟨rfl, hstored⟩ := copyDirents_ok hcopy
    have hheld : Memory.HoldsBytes (c.after.userByte pid) dirp packed :=
      hmemory.held c.frames c.tables
    -- the buffer was empty, so what it holds now are the records that were packed
    obtain ⟨taken, hprefix, hsizes, hbytes, hlen⟩ := packDirents_ok hpack (Nat.zero_le c.count)
    rw [List.nil_append] at hbytes
    have hsum : packed.length = (taken.map DEntry.reclen).sum := by
      rw [hbytes, length_direntBytes]
    refine .inr ⟨taken, hprefix, ?_, hsizes, hsum ▸ hlen, by rw [hsum], ?_⟩
    · unfold delivered stored
      rw [hout]
      dsimp only
      rw [hheld.filterMap_range, hbytes, decodeDirents_direntBytes hsizes]
      rfl
    · intro hne
      refine hbytes ▸ hstored.resolve_left fun hnil => hne ?_
      rw [hnil, List.length_nil] at hsum
      -- a record is never empty, so an empty buffer took no entry
      rcases taken with _ | ⟨e, rest⟩
      · rfl
      · have hcovers := e.covers_name
        rw [List.map_cons, List.sum_cons] at hsum
        omega

/-- A call delivers a prefix of the entries. -/
theorem delivered_prefix : c.delivered <+: c.entries.map DEntry.dirent := by
  rcases c.cases with ⟨-, hnone⟩ | ⟨taken, hprefix, hdelivered, -⟩
  · rw [hnone]
    exact List.nil_prefix
  · rw [hdelivered]
    exact hprefix.map _

/-- A call whose records fit delivers every entry. -/
theorem Fits.outcome (h : c.Fits) : c.outcome = .ok (c.entries.map DEntry.reclen).sum := by
  have hpack : packDirents c.count c.entries [] = .ok ([] ++ direntBytes c.entries) :=
    packDirents_fits h.sizes (by simpa using h.total)
  unfold DentsCall.outcome
  rw [(doGetdents64_outcome c.enough c.buffer c.isOpen c.answered).1]
  show ((packDirents c.count c.entries []).bind _) = _
  rw [hpack, List.nil_append]
  show copyDirents pid dirp (direntBytes c.entries) _ = _
  unfold copyDirents
  by_cases hnil : c.entries = []
  · rw [hnil]
    rfl
  · have hne : direntBytes c.entries ≠ [] := by
      obtain ⟨e, rest, hcons⟩ := List.exists_cons_of_ne_nil hnil
      rw [hcons]
      exact List.append_ne_nil_of_left_ne_nil e.record_ne_nil _
    rw [if_neg hne, h.stores hnil, ← length_direntBytes]
    rfl

/-- A call delivers every entry, and says so, exactly when the records fit. -/
theorem complete_iff :
    (c.delivered = c.entries.map DEntry.dirent ∧ c.Honest) ↔ c.Fits := by
  constructor
  · rintro ⟨hall, hhonest⟩
    rcases c.cases with ⟨⟨e, herror⟩, hnone⟩ | ⟨taken, hprefix, hdelivered, hsizes,
      hsum, -, hstored⟩
    · -- a call that fails has no entries to deliver, and then it does not fail
      rw [hnone] at hall
      have hnil : c.entries = [] := List.map_eq_nil_iff.mp hall.symm
      have hfits : c.Fits := ⟨by simp [hnil], by simp [hnil], fun hne => absurd hnil hne⟩
      exact hfits
    · rw [hdelivered] at hall
      have hlen : taken.length = c.entries.length := by simpa using congrArg List.length hall
      obtain rfl := hprefix.eq_of_length hlen
      exact ⟨hsizes, hsum, hstored⟩
  · intro h
    have hout := h.outcome
    have hpos : ∀ e : DEntry, 0 < e.reclen := by
      intro e
      have hcovers := e.covers_name
      omega
    -- the entries, what a value of zero says, and that no first entry is too large
    refine ⟨?_, ?_, ?_⟩
    · rcases c.cases with ⟨⟨e, herror⟩, -⟩ | ⟨taken, hprefix, hdelivered, -, -, hvalue, -⟩
      · rw [hout] at herror
        cases herror
      · -- the value says how many records were stored
        obtain ⟨rest, hentries⟩ := hprefix
        rw [hout, ← hentries, List.map_append, List.sum_append] at hvalue
        have hrest : (rest.map DEntry.reclen).sum = 0 := by
          have := Except.ok.inj hvalue
          omega
        rcases rest with _ | ⟨e, rest⟩
        · rw [hdelivered, ← hentries, List.append_nil]
        · have := hpos e
          rw [List.map_cons, List.sum_cons] at hrest
          omega
    · intro hzero
      rw [hout] at hzero
      have hsum := Except.ok.inj hzero
      rcases hentries : c.entries with _ | ⟨e, rest⟩
      · rfl
      · have := hpos e
        rw [hentries, List.map_cons, List.sum_cons] at hsum
        omega
    · intro e he hlarge
      obtain ⟨rest, hentries⟩ := List.head?_eq_some_iff.mp he
      have htotal := h.total
      rw [hentries, List.map_cons, List.sum_cons] at htotal
      omega

end DentsCall

/-- A listing loses nothing exactly when the records of the entries of each call fit in the buffer
and the buffer can be written. The calls may have anything between them. -/
theorem listing_complete_iff (dents : Ext → List DEntry) (pid fd dirp : Nat)
    (calls : List (DentsCall dents pid fd dirp)) :
    (calls.flatMap DentsCall.delivered = (calls.flatMap DentsCall.entries).map DEntry.dirent ∧
      ∀ c ∈ calls, c.Honest) ↔ ∀ c ∈ calls, c.Fits := by
  have hmap : (calls.flatMap DentsCall.entries).map DEntry.dirent =
      calls.flatMap fun c => c.entries.map DEntry.dirent := List.map_flatMap
  rw [hmap, flatMap_eq_flatMap_iff fun c _ => c.delivered_prefix, ← forall₂_and]
  exact forall₂_congr fun c _ => c.complete_iff

/-- A call of `init` on the directory, with a buffer of `count` bytes. -/
def sampleDentsCall (dents : Ext → List DEntry) (count : Nat) (h : DIRENT64_MIN_RECLEN ≤ count) :
    DentsCall dents 1 0 0x3ffff000 :=
  ⟨sampleBoot, sampleBoot_reachable.frameInv, sampleBoot_tablesSound, count, h, by decide,
    by decide +kernel, by decide +kernel⟩

/-- With a buffer for two entries, `init` gets the directory. -/
theorem listing_complete_iff_init :
    (sampleDentsCall sampleDents 48 (by decide)).delivered =
      (sampleDentsCall sampleDents 48 (by decide)).entries.map DEntry.dirent := by
  have hfits : (sampleDentsCall sampleDents 48 (by decide)).Fits :=
    ⟨by decide +kernel, by decide +kernel, fun _ => by decide +kernel⟩
  have hall := ((listing_complete_iff sampleDents 1 0 0x3ffff000 [sampleDentsCall sampleDents 48
    (by decide)]).mpr fun c hc => List.mem_singleton.mp hc ▸ hfits).1
  simpa using hall

/-- With a buffer for one entry the second one is lost. A first entry that does not fit is no error
but the end of the directory. -/
theorem getdents_loses_entries :
    (sampleDentsCall sampleDents 24 (by decide)).outcome = .ok 24 ∧
    (sampleDentsCall sampleDents 24 (by decide)).delivered =
      [⟨1, 1, 24, 4, [97]⟩] ∧
    (sampleDentsCall sampleDents 24 (by decide)).entries.map DEntry.dirent =
      [⟨1, 1, 24, 4, [97]⟩, ⟨2, 2, 24, 8, [98]⟩] ∧
    ¬ (sampleDentsCall (fun _ => [⟨1, 1, 4, [97, 97, 97, 97, 97, 97]⟩]) 24 (by decide)).Honest := by
  refine ⟨by decide +kernel, by decide +kernel, by decide +kernel, fun h => ?_⟩
  have hzero : (sampleDentsCall (fun _ => [⟨1, 1, 4, [97, 97, 97, 97, 97, 97]⟩]) 24
      (by decide)).outcome = .ok 0 := by decide +kernel
  exact absurd (h.zero hzero) (by decide)

end Ape
