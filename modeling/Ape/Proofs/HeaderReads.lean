import Ape.Proofs.HostileImages

/-!
# `Ape.Proofs.HeaderReads`: the reads of program headers

`ProgramHeaders::next` computes the offset of a header and the end of the header with plain
additions, compares the end with the length of the file, and reads the header without another check
(`ElfImage.nextHeader`). `ElfImage.headerReads` are the reads of a whole iteration.

`header_reads_in_bounds_iff` says when every read lies in the file: when the first header that is
looked for ends within the word. A sum that wraps is past the length as an integer, and small as a
word.
-/

set_option autoImplicit false

namespace Ape

open Ape.Lib

namespace ElfImage

variable (d : ElfImage)

/-- `ProgramHeaders::next` on an iterator at `current`: the header with the offset that it is read
from, and the iterator after it. -/
def nextHeader (current : Nat) : Option (Nat × Phdr) × Nat :=
  if d.phNum ≤ current then (none, current)
  else
    let off := wAdd d.phOffset (current * d.phEntrySize)
    if d.size < wAdd off 56 then (none, current)
    else (some (off, d.phdrAt off), current + 1)

/-- The headers that a loop over the iterator gets. Every round that goes on raises `current`, so
`phNum` is fuel enough. -/
def headerLoop : Nat → Nat → List (Nat × Phdr)
  | 0, _ => []
  | fuel + 1, current =>
    let r := d.nextHeader current
    match r.1 with
    | none => []
    | some read => read :: headerLoop fuel r.2

/-- The reads of `program_headers`. -/
def headerReads : List (Nat × Phdr) := d.headerLoop d.phNum 0

/-- The path in an interpreter segment. -/
def pathAt (start stop : Nat) : List UInt8 :=
  ((List.range (stop - start)).map fun i => d.byte (start + i)).takeWhile (· ≠ 0)

end ElfImage

/-- What the reads of an image have to do. -/
structure ElfImage.ReadsInBounds (d : ElfImage) : Prop where
  exact : ∀ i (h : i < d.headerReads.length), d.headerReads[i].1 = d.phOffset + i * d.phEntrySize ∧
    d.phOffset + i * d.phEntrySize + 56 < usizeMod
  within : ∀ read ∈ d.headerReads, read.1 + 56 ≤ d.size
  atMost : d.headerReads.length ≤ d.phNum
  stops : d.headerReads.length < d.phNum →
    d.size < d.phOffset + d.headerReads.length * d.phEntrySize + 56
  path : ∀ path, d.interpreterPath = some path →
    ∃ start stop, start < stop ∧ stop ≤ d.size ∧
      path.toByteArray = (d.pathAt start stop).toByteArray

/-! ### The iteration -/

section Iteration

variable {d : ElfImage}

/-- The header at `i` fits, as the code computes it. -/
def ElfImage.passes (d : ElfImage) (i : Nat) : Bool := wAdd (d.phdrOffset i) 56 ≤ d.size

/-- One round, with the test on its own. -/
theorem ElfImage.headerLoop_succ {fuel current : Nat} (h : current < d.phNum) :
    d.headerLoop (fuel + 1) current = if d.passes current = true then
      (d.phdrOffset current, d.phdrAt (d.phdrOffset current)) :: d.headerLoop fuel (current + 1)
    else [] := by
  have hmore : ¬ d.phNum ≤ current := by omega
  rw [headerLoop, nextHeader, if_neg hmore]
  by_cases hpass : wAdd (d.phdrOffset current) 56 ≤ d.size
  · rw [if_pos (show d.passes current = true from decide_eq_true hpass)]
    dsimp only
    rw [if_neg (show ¬ d.size < wAdd (wAdd d.phOffset (current * d.phEntrySize)) 56 from
      Nat.not_lt.mpr hpass)]
    rfl
  · rw [if_neg (show ¬ d.passes current = true from fun hp => hpass (of_decide_eq_true hp))]
    dsimp only
    rw [if_pos (show d.size < wAdd (wAdd d.phOffset (current * d.phEntrySize)) 56 from
      Nat.lt_of_not_le hpass)]

/-- The rounds from `current` on get the headers up to the first one that does not pass. -/
theorem ElfImage.headerLoop_eq (fuel current : Nat) (h : current + fuel = d.phNum) :
    d.headerLoop fuel current = ((List.range' current fuel).takeWhile d.passes).map fun i =>
      (d.phdrOffset i, d.phdrAt (d.phdrOffset i)) := by
  induction fuel generalizing current with
  | zero => rfl
  | succ fuel ih =>
    rw [headerLoop_succ (by omega), List.range'_succ]
    by_cases hpass : d.passes current = true
    · rw [if_pos hpass, List.takeWhile_cons_of_pos hpass, List.map_cons, ih _ (by omega)]
    · rw [if_neg hpass, List.takeWhile_cons_of_neg hpass]
      rfl

/-- What ends the rounds is a header that does not pass. -/
theorem ElfImage.headerLoop_stop (fuel current : Nat) (h : current + fuel = d.phNum)
    (hlt : (d.headerLoop fuel current).length < fuel) :
    d.passes (current + (d.headerLoop fuel current).length) = false := by
  induction fuel generalizing current with
  | zero => exact absurd hlt (Nat.not_lt_zero _)
  | succ fuel ih =>
    rw [headerLoop_succ (by omega)] at hlt ⊢
    by_cases hpass : d.passes current = true
    · rw [if_pos hpass, List.length_cons] at hlt ⊢
      have hnext : current + ((d.headerLoop fuel (current + 1)).length + 1)
          = current + 1 + (d.headerLoop fuel (current + 1)).length := by omega
      rw [hnext]
      exact ih (current + 1) (by omega) (by omega)
    · rw [if_neg hpass]
      exact Bool.eq_false_iff.mpr hpass

/-- The headers are read in order, up to the first that does not pass. -/
theorem ElfImage.headerReads_eq : d.headerReads = ((List.range d.phNum).takeWhile d.passes).map
    fun i => (d.phdrOffset i, d.phdrAt (d.phdrOffset i)) := by
  rw [headerReads, headerLoop_eq _ _ (Nat.zero_add _), List.range_eq_range']

/-- The loader goes over the headers that are read. -/
theorem ElfImage.headerReads_headers : d.headerReads.map Prod.snd = d.programHeaders := by
  rw [headerReads_eq, List.map_map]
  rfl

/-- There are as many reads as there are headers. -/
theorem ElfImage.headerReads_length : d.headerReads.length = d.programHeaders.length := by
  rw [← headerReads_headers, List.length_map]

/-- There are at most as many reads as the file says. -/
theorem ElfImage.headerReads_length_le : d.headerReads.length ≤ d.phNum := by
  rw [headerReads_eq, List.length_map]
  exact (List.takeWhile_prefix _).length_le.trans_eq List.length_range

/-- The offset of a read. -/
theorem ElfImage.headerReads_getElem {i : Nat} (h : i < d.headerReads.length) :
    d.headerReads[i].1 = d.phdrOffset i := by
  have hlen := h
  rw [headerReads_eq, List.length_map] at hlen
  have hi : ((List.range d.phNum).takeWhile d.passes)[i] = i := by
    rw [(List.takeWhile_prefix d.passes).getElem hlen, List.getElem_range]
  simp only [headerReads_eq, List.getElem_map, hi]

end Iteration

/-- `interpreter_path` returns a slice of the file. -/
theorem ElfImage.interpreterPath_slice {d : ElfImage} {path : String}
    (h : d.interpreterPath = some path) : ∃ start stop, start < stop ∧ stop ≤ d.size ∧
      path.toByteArray = (d.pathAt start stop).toByteArray := by
  obtain ⟨ph, -, hstop⟩ := Option.bind_eq_some_iff.mp h
  obtain ⟨stop, hadd, hslice⟩ := Option.bind_eq_some_iff.mp hstop
  dsimp only at hslice
  split at hslice
  · cases hslice
  rename_i hin
  refine ⟨ph.pOffset, stop, by omega, by omega, ?_⟩
  unfold String.fromUTF8? at hslice
  split at hslice
  · cases hslice
    rfl
  · cases hslice

/-- Every read of a program header lies in the file, at its exact offset, exactly when the first
header that is looked for ends within the word. -/
theorem header_reads_in_bounds_iff (d : ElfImage) (hvalid : d.valid = true)
    (hsize : d.size < 2 ^ 63) :
    d.ReadsInBounds ↔ d.phNum = 0 ∨ d.phOffset + 56 < usizeMod := by
  constructor
  · intro h
    by_cases hnum : d.phNum = 0
    · exact .inl hnum
    refine .inr ?_
    by_contra hwrap
    -- the end of the first header wraps, so it passes, and it is read past the word
    have hheader : 64 ≤ d.size := by
      unfold ElfImage.valid at hvalid
      rw [Bool.and_eq_true] at hvalid
      exact of_decide_eq_true hvalid.1
    have hoff : d.phOffset < usizeMod := (d.word_lt 32 8).trans_eq (by decide)
    have hzero : d.phdrOffset 0 = d.phOffset := by
      rw [ElfImage.phdrOffset, Nat.zero_mul, wAdd, Nat.add_zero, Nat.mod_eq_of_lt hoff]
    have hpass : d.passes 0 = true := by
      refine decide_eq_true ?_
      rw [hzero]
      unfold wAdd usizeMod at *
      omega
    obtain ⟨fuel, hfuel⟩ := Nat.exists_eq_succ_of_ne_zero hnum
    have hread : 0 < d.headerReads.length := by
      rw [ElfImage.headerReads, hfuel, ElfImage.headerLoop_succ (by omega), if_pos hpass]
      exact Nat.succ_pos _
    have hfit := (h.exact 0 hread).2
    omega
  · intro hfirst
    have hfits : ∀ i ≤ d.headerReads.length, i < d.phNum →
        d.phOffset + i * d.phEntrySize + 56 < usizeMod := by
      intro i hi hnum
      rw [ElfImage.headerReads_length] at hi
      exact ElfImage.header_fits hsize (hfirst.resolve_left (by omega)) i hi
    have hexact : ∀ i (h : i < d.headerReads.length),
        d.phdrOffset i = d.phOffset + i * d.phEntrySize ∧
          d.phOffset + i * d.phEntrySize + 56 < usizeMod := by
      intro i hi
      have hfit := hfits i hi.le (hi.trans_le ElfImage.headerReads_length_le)
      exact ⟨Nat.mod_eq_of_lt (by omega), hfit⟩
    refine ⟨?_, ?_, ElfImage.headerReads_length_le, ?_, fun path => ElfImage.interpreterPath_slice⟩
    · intro i hi
      rw [ElfImage.headerReads_getElem hi]
      exact hexact i hi
    · intro read hread
      obtain ⟨i, hi, rfl⟩ := List.mem_iff_getElem.mp hread
      have hin := ElfImage.header_within (d := d) (i := i) (by
        rw [← ElfImage.headerReads_length]
        exact hi)
      obtain ⟨hoff, hfit⟩ := hexact i hi
      rw [ElfImage.headerReads_getElem hi]
      rw [hoff, wAdd, Nat.mod_eq_of_lt hfit] at hin
      omega
    · intro hlt
      have hstop := ElfImage.headerLoop_stop d.phNum 0 (Nat.zero_add _) hlt
      rw [Nat.zero_add] at hstop
      have hfit := hfits d.headerReads.length le_rfl hlt
      have hpast := of_decide_eq_false hstop
      have hoff : d.phdrOffset d.headerReads.length
          = d.phOffset + d.headerReads.length * d.phEntrySize := Nat.mod_eq_of_lt (by omega)
      change ¬ wAdd (d.phdrOffset d.headerReads.length) 56 ≤ d.size at hpast
      rw [hoff, wAdd, Nat.mod_eq_of_lt hfit] at hpast
      omega

/-- The two headers of an image with two segments. -/
theorem header_reads_in_bounds_iff_sampleSegments :
    (sampleSegments 0x11000).headerReads.length = 2 ∧
    (sampleSegments 0x11000).ReadsInBounds :=
  ⟨by decide +kernel, (header_reads_in_bounds_iff (sampleSegments 0x11000) (by decide +kernel)
    (by decide)).mpr (by decide +kernel)⟩

/-- A file that is a header only, with one program header at the last offset of the word. -/
def wildImage : ElfImage := ⟨64, fun o =>
  if o < 4 then [0x7f, 0x45, 0x4c, 0x46].getD o 0
  else if 32 ≤ o ∧ o < 40 then 0xff
  else if o = 56 then 1
  else 0⟩

/-- The end of its header wraps to 55, and the header is read 2 ^ 64 - 1 bytes behind the start. -/
theorem header_is_read_past_file :
    wildImage.valid = true ∧ wildImage.size < 2 ^ 63 ∧
    wildImage.headerReads.map Prod.fst = [2 ^ 64 - 1] ∧ ¬ wildImage.ReadsInBounds := by
  have hreads : wildImage.headerReads.map Prod.fst = [2 ^ 64 - 1] := by decide +kernel
  refine ⟨by decide +kernel, by decide, hreads, ?_⟩
  intro h
  have hmem : 2 ^ 64 - 1 ∈ wildImage.headerReads.map Prod.fst := by
    rw [hreads]
    exact List.mem_cons_self
  obtain ⟨read, hread, hfst⟩ := List.mem_map.mp hmem
  have hin := h.within read hread
  rw [hfst] at hin
  exact absurd hin (by decide)

end Ape
