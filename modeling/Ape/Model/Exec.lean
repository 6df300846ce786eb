import Ape.Model.Lifecycle

/-!
# `Ape.Model.Exec`: replacing the image of a process

`task/exec.rs`, the ELF reader of `elf.rs` and the string reads of `ape/user.rs`. The image
comes from a service and may hold any bytes. An `ElfImage` is a length and a byte at every
offset: a read past the length, which the source does not exclude, returns some byte.

The additions on the values of an image wrap, as in a release build.
-/

set_option autoImplicit false

namespace Ape

open Ape.Lib Cmd

/-! ### Strings of a process -/

def USER_PATH_MAX : Nat := 4096
def USER_EXEC_ARGV_MAX : Nat := 256
def USER_EXEC_ENVP_MAX : Nat := 256
def USER_EXEC_STRING_MAX : Nat := 4096

/-- The loop of `strncpy_from_user`, with the bytes `out` read. -/
def strncpyLoop (pid maxLen : Nat) : Nat → Nat → List UInt8 → S (List UInt8)
  | 0, _, _ => throw .messageTooLong
  | fuel + 1, cursor, out =>
    if out.length < maxLen then do
      let m ← inFst (lookupMap pid cursor Perms.R)
      let start := cursor - m.vaddr
      let available := min (m.size - start) (maxLen - out.length)
      if available = 0 then throw .messageTooLong
      else do
        let scratch ← acquire m Perms.R
        let bytes ← gets fun s =>
          (List.range available).map fun i => s.1.scratchByte scratch (start + i)
        let text := bytes.takeWhile (· ≠ 0)
        if text.length < bytes.length then pure (out ++ text)
        else strncpyLoop pid maxLen fuel (satAdd cursor available) (out ++ bytes)
    else throw .messageTooLong

/-- `strncpy_from_user`. -/
def strncpyFromUser (pid userSrc maxLen : Nat) : S String :=
  if userSrc = 0 then throw .invalidAddress
  else if maxLen = 0 then throw .invalidArgs
  else do
    let bytes ← strncpyLoop pid maxLen maxLen userSrc []
    getSome (String.fromUTF8? bytes.toByteArray) .invalidArgs

/-- The loop of `read_user_string_array` over the indices that are left. -/
def stringArrayLoop (pid arrayPtr maxStrLen : Nat) : List Nat → List String → S (List String)
  | [], _ => throw .messageTooLong
  | i :: rest, out => do
    let ptrAddr ← getSome (checkedAdd arrayPtr (i * 8)) .invalidAddress
    let raw ← sessionCopyFromUser pid ptrAddr 8
    if leNat raw = 0 then pure out
    else do
      let s ← strncpyFromUser pid (leNat raw) maxStrLen
      stringArrayLoop pid arrayPtr maxStrLen rest (out ++ [s])

/-- `read_user_string_array`. -/
def readUserStringArray (pid arrayPtr maxCount maxStrLen : Nat) : S (List String) :=
  if arrayPtr = 0 then pure []
  else stringArrayLoop pid arrayPtr maxStrLen (List.range maxCount) []

/-- `parse_execve_user_input`. -/
def parseExecveUserInput (pid filenamePtr argvPtr envpPtr : Nat) :
    M (String × List String × List String) :=
  withUserSession do
    let filename ← strncpyFromUser pid filenamePtr USER_PATH_MAX
    let argv ← readUserStringArray pid argvPtr USER_EXEC_ARGV_MAX USER_EXEC_STRING_MAX
    let envp ← readUserStringArray pid envpPtr USER_EXEC_ENVP_MAX USER_EXEC_STRING_MAX
    pure (filename, argv, envp)

/-! ### ELF images -/

/-- The bytes of an image file. -/
structure ElfImage where
  size : Nat
  byte : Nat → UInt8

namespace ElfImage

/-- The little-endian value of `k` bytes from `off` on. -/
def word (d : ElfImage) (off k : Nat) : Nat := leNat ((List.range k).map fun i => d.byte (off + i))

/-- `ElfFile::new`: the size of the header and the magic number. -/
def valid (d : ElfImage) : Bool :=
  64 ≤ d.size && (List.range 4).map d.byte == [0x7f, 0x45, 0x4c, 0x46]

/-- `e_type`. -/
def fileType (d : ElfImage) : Nat := d.word 16 2

/-- `e_entry`. -/
def entryPoint (d : ElfImage) : Nat := d.word 24 8

/-- `e_phoff`. -/
def phOffset (d : ElfImage) : Nat := d.word 32 8

/-- `e_phentsize`. -/
def phEntrySize (d : ElfImage) : Nat := d.word 54 2

/-- `e_phnum`. -/
def phNum (d : ElfImage) : Nat := d.word 56 2

end ElfImage

/-- `Elf_Phdr`, the fields the loader reads. -/
structure Phdr where
  pType : Nat
  pFlags : Nat
  pOffset : Nat
  pVaddr : Nat
  pFilesz : Nat
  pMemsz : Nat
  deriving DecidableEq

def PT_LOAD : Nat := 1
def PT_INTERP : Nat := 3
def PT_PHDR : Nat := 6
def PF_X : Nat := 1
def PF_W : Nat := 2
def ET_EXEC : Nat := 2
def ET_DYN : Nat := 3
def AT_PHDR : Nat := 3
def AT_PHENT : Nat := 4
def AT_PHNUM : Nat := 5
def AT_PAGESZ : Nat := 6
def AT_BASE : Nat := 7
def AT_ENTRY : Nat := 9
def INTERP_LOAD_GAP : Nat := 0x100000
def INITIAL_TLS_PAGES : Nat := 4
def INITIAL_TLS_GAP_PAGES : Nat := 8

namespace ElfImage

/-- The header at `off`. -/
def phdrAt (d : ElfImage) (off : Nat) : Phdr :=
  ⟨d.word off 4, d.word (off + 4) 4, d.word (off + 8) 8, d.word (off + 16) 8, d.word (off + 32) 8,
    d.word (off + 40) 8⟩

/-- The offset that `ProgramHeaders::next` computes for header `i`. -/
def phdrOffset (d : ElfImage) (i : Nat) : Nat := wAdd d.phOffset (i * d.phEntrySize)

/-- `program_headers`: the headers up to the first one that does not fit. -/
def programHeaders (d : ElfImage) : List Phdr :=
  ((List.range d.phNum).takeWhile fun i => wAdd (d.phdrOffset i) 56 ≤ d.size).map fun i =>
    d.phdrAt (d.phdrOffset i)

/-- `interpreter_path`. -/
def interpreterPath (d : ElfImage) : Option String := do
  let ph ← d.programHeaders.find? fun ph => ph.pType = PT_INTERP
  let stop ← checkedAdd ph.pOffset ph.pFilesz
  if d.size < stop ∨ stop ≤ ph.pOffset then none
  else
    let bytes := (List.range (stop - ph.pOffset)).map fun i => d.byte (ph.pOffset + i)
    String.fromUTF8? (bytes.takeWhile (· ≠ 0)).toByteArray

end ElfImage

/-! ### Reading an image -/

/-- The read loop of `read_exec_image_from_fs`. Every round reads at least one byte. -/
def readImageLoop (size : Nat) : Nat → Nat → (Nat → UInt8) → M (Nat → UInt8)
  | 0, _, bytes => pure bytes
  | fuel + 1, offset, bytes =>
    if offset < size then do
      let a ← ext
      if min a.val (size - offset) = 0 then throw .ioError
      else
        readImageLoop size fuel (offset + min a.val (size - offset))
          fun i => if offset ≤ i then a.bytes (i - offset) else bytes i
    else pure bytes

/-- `read_exec_image_from_fs`. -/
def readExecImageFromFs : M ElfImage := do
  let stat ← ext
  let size := stat.val % usizeMod
  if size = 0 then throw .invalidArgs
  else do
    let slot ← cspaceAlloc
    onError (do let _ ← ext) fun _ => cspaceFree slot
    let bytes ← onError (readImageLoop size size 0 fun _ => 0) fun _ => cspaceFree slot
    onError (do let _ ← ext) fun _ => cspaceFree slot
    cspaceFree slot
    pure ⟨size, bytes⟩

/-! ### Loading segments -/

/-- The permissions of a segment. -/
def Phdr.perms (ph : Phdr) : Perms := ⟨true, ph.pFlags &&& PF_W != 0, ph.pFlags &&& PF_X != 0⟩

/-- The byte at `o` of the page `pageVaddr` of a segment: the file's bytes where the file
has them, and zero elsewhere. -/
def ElfImage.pageByte (d : ElfImage) (ph : Phdr) (segStart pageVaddr o : Nat) : UInt8 :=
  let copyStart := max pageVaddr segStart
  let copyEnd := min (wAdd pageVaddr PGSIZE) (satAdd segStart ph.pFilesz)
  let srcOff := wAdd ph.pOffset (copyStart - segStart)
  let dstOff := copyStart - pageVaddr
  if copyStart < copyEnd ∧ ph.pOffset < d.size ∧ srcOff < d.size ∧
      dstOff ≤ o ∧ o < dstOff + min (copyEnd - copyStart) (d.size - srcOff) then
    d.byte (srcOff + (o - dstOff))
  else 0

/-- Fill the first `n` bytes behind a scratch address. -/
def fillScratch (scratch n : Nat) (byte : Nat → UInt8) : M Unit :=
  writeScratch scratch fun o b => if o < n then byte o else b

/-- One page of a segment. -/
def loadSegmentPage (pid : Nat) (d : ElfImage) (ph : Phdr) (segStart pageVaddr : Nat) :
    M Unit := do
  let slot ← allocPageFrameNoCleanup 1
  ledgerRecordFrameAlloc pid slot
  mapProcessFrame pid slot pageVaddr ph.perms 1
  let _ ← getProcess pid
  modifyMm pid (·.addMemoryMap (pageEntry pageVaddr ph.perms .image slot))
  let scratch ← mapScratch slot Perms.RW 1
  fillScratch scratch PGSIZE (d.pageByte ph segStart pageVaddr)
  unmapScratch scratch

/-- The pages of a segment. -/
def segmentPages (segStart memsz : Nat) : List Nat :=
  let startPage := alignDown segStart
  let endPage := alignUp (wAdd segStart memsz)
  (List.range ((endPage + (usizeMod - startPage)) % usizeMod / PGSIZE)).map fun i =>
    wAdd startPage (i * PGSIZE)

/-- One segment. -/
def loadSegment (pid : Nat) (d : ElfImage) (loadBias : Nat) (ph : Phdr) : M Unit :=
  if ph.pType ≠ PT_LOAD ∨ ph.pMemsz = 0 then pure ()
  else
    forEach (segmentPages (wAdd loadBias ph.pVaddr) ph.pMemsz) fun page =>
      loadSegmentPage pid d ph (wAdd loadBias ph.pVaddr) page

/-- `LoadedElfInfo`. -/
structure LoadedElfInfo where
  entry : Nat
  loadEnd : Nat
  phdrVaddr : Nat
  deriving DecidableEq

/-- What `load_elf_into_process` returns about an image. -/
def ElfImage.info (d : ElfImage) (loadBias : Nat) : LoadedElfInfo where
  entry := wAdd loadBias d.entryPoint
  loadEnd := d.programHeaders.foldl (fun acc ph =>
    if ph.pType ≠ PT_LOAD ∨ ph.pMemsz = 0 then acc
    else max acc (wAdd (wAdd loadBias ph.pVaddr) ph.pMemsz)) 0
  phdrVaddr := d.programHeaders.foldl (fun acc ph =>
    if ph.pType = PT_PHDR then wAdd loadBias ph.pVaddr else acc) (wAdd loadBias d.phOffset)

/-- `load_elf_into_process`. -/
def loadElfIntoProcess (pid : Nat) (d : ElfImage) (loadBias : Nat) : M LoadedElfInfo :=
  if !d.valid then throw .invalidArgs
  else do
    forEach d.programHeaders fun ph => loadSegment pid d loadBias ph
    pure (d.info loadBias)

/-! ### The initial stack -/

/-- The strings of one array at the top of the stack page, from `sp` down. The list is the
array from its end, and `placed` has the strings in the array's order. -/
def placeStrings : List (List UInt8) → Nat → List (Nat × List UInt8) →
    Option (Nat × List (Nat × List UInt8))
  | [], sp, placed => some (sp, placed)
  | s :: rest, sp, placed =>
    if sp < s.length + 1 then none
    else placeStrings rest (sp - (s.length + 1)) ((sp - (s.length + 1), s ++ [0]) :: placed)

/-- The words below the strings: `argc`, the pointers and the auxiliary vector. -/
def stackWords (base : Nat) (argv envp : List (Nat × List UInt8)) (auxv : List (Nat × Nat)) :
    List Nat :=
  [argv.length] ++ argv.map (base + ·.1) ++ [0] ++ envp.map (base + ·.1) ++ [0]
    ++ auxv.flatMap (fun kv => [kv.1, kv.2]) ++ [0, 0]

/-- The stack pointer in the page and the stores of `setup_initial_stack`. -/
def initialStack (base : Nat) (argv envp : List (List UInt8)) (auxv : List (Nat × Nat)) :
    Option (Nat × List (Nat × List UInt8)) := do
  let (sp, argvAt) ← placeStrings argv.reverse PGSIZE []
  let (sp, envpAt) ← placeStrings envp.reverse sp []
  let words := stackWords base argvAt envpAt auxv
  if sp < words.length * 8 then none
  else
    let sp := (sp - words.length * 8) / 16 * 16
    some (sp, argvAt ++ envpAt
      ++ words.zipIdx.map fun wi => (sp + wi.2 * 8, leBytes 8 wi.1))

/-- The byte at `o` after the stores into a zeroed page. -/
def storedByte (stores : List (Nat × List UInt8)) (o : Nat) : UInt8 :=
  stores.foldl (fun b st => storeBytes st.1 st.2 o b) 0

/-- `setup_initial_stack`. -/
def setupInitialStack (pid : Nat) (fallbackArg0 : String) (argv envp : List String)
    (auxv : List (Nat × Nat)) : M Nat := do
  let l ← gets (·.layout)
  let base := l.stackBase - PGSIZE
  let slot ← allocPageFrameNoCleanup 1
  ledgerRecordFrameAlloc pid slot
  mapProcessFrame pid slot base Perms.RW 1
  let scratch ← mapScratch slot Perms.RW 1
  fillScratch scratch PGSIZE fun _ => 0
  let argv := if argv = [] then [fallbackArg0] else argv
  let (sp, stores) ← getSome (initialStack base (argv.map (·.toUTF8.toList))
    (envp.map (·.toUTF8.toList)) auxv) .outOfMemory
  fillScratch scratch PGSIZE (storedByte stores)
  unmapScratch scratch
  let _ ← getProcess pid
  modifyMm pid fun mm =>
    { mm.addMemoryMap (pageEntry base Perms.RW .stack slot) with stackSize := PGSIZE }
  pure (base + sp)

/-- `setup_initial_tls`. -/
def setupInitialTls (pid : Nat) : M Nat := do
  let l ← gets (·.layout)
  let tlsStart := l.utcbVa - INITIAL_TLS_GAP_PAGES * PGSIZE - INITIAL_TLS_PAGES * PGSIZE
  let slot ← allocPageFrameNoCleanup INITIAL_TLS_PAGES
  ledgerRecordFrameAlloc pid slot
  mapProcessFrame pid slot tlsStart Perms.RW INITIAL_TLS_PAGES
  let scratch ← mapScratch slot Perms.RW INITIAL_TLS_PAGES
  fillScratch scratch (INITIAL_TLS_PAGES * PGSIZE) fun _ => 0
  unmapScratch scratch
  let _ ← getProcess pid
  modifyMm pid (·.addMemoryMap { pageEntry tlsStart Perms.RW .anonymous slot with
    size := INITIAL_TLS_PAGES * PGSIZE })
  pure (tlsStart + INITIAL_TLS_PAGES * PGSIZE / 2)

/-! ### `execve` -/

/-- `close_cloexec_fds`. -/
def closeCloexecFds (pid : Nat) : M Unit := do
  let task ← getProcess pid
  forEach ((task.files.fdCloexec.entries.filter (·.2)).map (·.1)) fun fd => doClose pid fd

/-- The release of the old image. -/
def replaceImage (pid : Nat) : M Unit := do
  let task ← getProcess pid
  unmapAll pid task.mm.state
  releaseAllFrames pid task.mm.state
  let _ ← getProcess pid
  modifyMm pid fun mm =>
    { mm with memoryMaps := OrdMap.empty, lazyMemoryMaps := OrdMap.empty, stackSize := 0 }

/-- The interpreter of an image, when it names one: its base and its entry. -/
def loadInterpreter (pid : Nat) (main : LoadedElfInfo) (interp : Option String) :
    M (Option (Nat × Nat)) :=
  match interp with
  | none => pure none
  | some _ => do
    let d ← readExecImageFromFs
    let base := alignUp (wAdd main.loadEnd INTERP_LOAD_GAP)
    let info ← loadElfIntoProcess pid d base
    pure (some (base, info.entry))

/-- The regions of an address space that `execve` sets. -/
def MmState.resetRegions (mm : MmState) (l : Layout) (loadEnd : Nat) : MmState :=
  { mm with
    heapStart := alignUp (max loadEnd l.heapVa)
    heapBrk := alignUp (max loadEnd l.heapVa)
    heapLimit := mm.mmapBase
    mmapNext := mm.mmapBase
    stackBottom := l.stackBase
    stackSize := 0 }

/-- `do_execve`. -/
def doExecve (pid : Nat) (path : String) (argv envp : List String) : M Unit := do
  let d ← readExecImageFromFs
  if !d.valid then throw .invalidArgs
  else if d.fileType ≠ ET_EXEC ∧ d.fileType ≠ ET_DYN then throw .invalidArgs
  else do
    replaceImage pid
    let main ← loadElfIntoProcess pid d 0
    let interp ← loadInterpreter pid main d.interpreterPath
    let _ ← getProcess pid
    let l ← gets (·.layout)
    modifyMm pid (·.resetRegions l main.loadEnd)
    let _ ← setupInitialStack pid path argv envp
      [(AT_PHDR, main.phdrVaddr), (AT_PHENT, d.phEntrySize), (AT_PHNUM, d.phNum),
        (AT_PAGESZ, PGSIZE), (AT_BASE, (interp.map (·.1)).getD 0), (AT_ENTRY, main.entry)]
    let _ ← setupInitialTls pid
    let _ ← getProcess pid
    let _ ← ext
    let _ ← ext
    closeCloexecFds pid

/-- `do_execve_user`. -/
def doExecveUser (pid filenamePtr argvPtr envpPtr : Nat) : M Unit := do
  let input ← parseExecveUserInput pid filenamePtr argvPtr envpPtr
  doExecve pid input.1 input.2.1 input.2.2

end Ape
