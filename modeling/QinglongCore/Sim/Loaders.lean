import QinglongCore.Rtl.Defs

/-!
# ELF loaders (`elf_loader.cpp`, `sim_main.cpp`, `elf2mem.py`)

The simulator goes through words at byte addresses and the DPI port of the SRAM; the script builds an image of bytes.
Symbols, messages about what was dropped, and the text of the image file are left out.
-/

namespace QinglongCore.Elf

/-- A file, as its bytes. -/
abbrev File := List (BitVec 8)

variable (f : File)

def byteAt (n : Nat) : BitVec 8 := f.getD n 0
def half16 (n : Nat) : BitVec 16 := byteAt f (n + 1) ++ byteAt f n
def word32 (n : Nat) : Word := byteAt f (n + 3) ++ byteAt f (n + 2) ++ byteAt f (n + 1) ++ byteAt f n

/-! ## Headers -/

def ELFMAG : List (BitVec 8) := [0x7F, 0x45, 0x4C, 0x46]
def ELFCLASS32 : BitVec 8 := 1
def ELFDATA2LSB : BitVec 8 := 1
def EM_RISCV : BitVec 16 := 243
def PT_LOAD : Word := 1

/-- `sizeof(Elf32_Ehdr)` and `sizeof(Elf32_Phdr)`. -/
def EHDR_SIZE : Nat := 52
def PHDR_SIZE : Nat := 32

def eMachine : BitVec 16 := half16 f 18
def ePhoff : Nat := (word32 f 28).toNat
def ePhentsize : Nat := (half16 f 42).toNat
def ePhnum : Nat := (half16 f 44).toNat

structure Phdr where
  type : Word
  offset : Word
  vaddr : Word
  paddr : Word
  filesz : Word
  memsz : Word

def phdrAt (n : Nat) : Phdr where
  type := word32 f n
  offset := word32 f (n + 4)
  vaddr := word32 f (n + 8)
  paddr := word32 f (n + 12)
  filesz := word32 f (n + 16)
  memsz := word32 f (n + 20)

/-- The SRAM of both tools: 64 KiB. -/
def SRAM_BASE : Word := 0x80000000#32
def SRAM_WORDS : Nat := 16384

/-! ## The simulator -/

/-- `LoadedElf::Word`. -/
structure ElfWord where
  byteAddr : Word
  data : Word

/-- `for (off = lo; off < hi; off += 4)`. -/
def offsets (lo hi : Nat) : List Nat := List.range' lo ((hi - lo + 3) / 4) 4

/-- A word of file contents, its tail padded with zeros. -/
def fileWord (data : Nat → BitVec 8) (filesz off : Nat) : Word :=
  (List.range 4).foldl
    (fun w b => if off + b < filesz then w ||| (data (off + b)).setWidth 32 <<< (8 * b) else w) 0

/-- The words of a segment: the file contents, and zeros from there on. -/
def segmentWords (vaddr : Word) (filesz memsz : Nat) (data : Nat → BitVec 8) : List ElfWord :=
  (offsets 0 filesz).map (fun off => ⟨vaddr + BitVec.ofNat 32 off, fileWord data filesz off⟩) ++
    (offsets filesz memsz).map fun off => ⟨vaddr + BitVec.ofNat 32 off, 0⟩

/-- The words of a program header; the physical address goes first. -/
def phdrWords (p : Phdr) : List ElfWord :=
  if p.type != PT_LOAD then []
  else
    segmentWords (if p.paddr != 0 then p.paddr else p.vaddr) p.filesz.toNat p.memsz.toNat fun n =>
      byteAt f (p.offset.toNat + n)

/-- `load_elf32`, as far as the memory contents go. -/
def loadElf32 (path : String) : Except String (List ElfWord) :=
  if f.length < EHDR_SIZE then .error ("file too small: " ++ path)
  else if f.take 4 != ELFMAG then .error ("not an ELF file: " ++ path)
  else if byteAt f 4 != ELFCLASS32 then .error ("not ELF32: " ++ path)
  else if byteAt f 5 != ELFDATA2LSB then .error ("not little-endian: " ++ path)
  else if eMachine f != EM_RISCV then .error ("not RISC-V ELF: " ++ path)
  else .ok ((List.range (ePhnum f)).flatMap fun i => phdrWords f (phdrAt f (ePhoff f + PHDR_SIZE * i)))

/-- One turn of the SRAM load loop: a word out of range is skipped. -/
def sramWrite (mem : BitVec 14 → Word) (w : ElfWord) : BitVec 14 → Word :=
  if w.byteAddr < SRAM_BASE then mem
  else
    let widx := ((w.byteAddr - SRAM_BASE) / 4#32).toNat
    if SRAM_WORDS ≤ widx then mem else fun k => if k = BitVec.ofNat 14 widx then w.data else mem k

/-- The SRAM that the simulation starts with. -/
def simImage (path : String) : Except String (BitVec 14 → Word) := do
  let words ← loadElf32 f path
  return words.foldl sramWrite fun _ => 0

/-! ## The script -/

/-- A slice assignment that keeps the size of the image. -/
def splice (image : Nat → BitVec 8) (lo : Nat) (payload : List (BitVec 8)) : Nat → BitVec 8 :=
  fun a => if lo ≤ a ∧ a < lo + payload.length then payload.getD (a - lo) 0 else image a

/-- One segment into the image; what lies outside is cut off. -/
def place (image : Nat → BitVec 8) (seg : Word × List (BitVec 8)) : Nat → BitVec 8 :=
  let size : Int := 4 * SRAM_WORDS
  let off : Int := seg.1.toNat - SRAM_BASE.toNat
  let payload := seg.2
  if off < 0 ∨ size < off + payload.length then
    let lo := max off 0
    let hi := min (off + payload.length) size
    if lo < hi then splice image lo.toNat ((payload.drop (lo - off).toNat).take (hi - lo).toNat) else image
  else splice image off.toNat payload

/-- The segments of `parse_elf`, past the checks of the header. -/
def parsePhdrs : List Nat → Except String (List (Word × List (BitVec 8)))
  | [] => .ok []
  | i :: is =>
      let off := ePhoff f + i * ePhentsize f
      let p := phdrAt f off
      if f.length < off + PHDR_SIZE then .error "unpack_from requires a buffer"
      else do
        let segs ← parsePhdrs is
        if p.type != PT_LOAD || p.filesz == 0 then return segs
        return (p.vaddr, (f.drop p.offset.toNat).take p.filesz.toNat) :: segs

/-- `parse_elf`. -/
def parseElf (path : String) : Except String (List (Word × List (BitVec 8))) :=
  if f.take 4 != ELFMAG then .error ("elf2mem: " ++ path ++ " is not an ELF")
  else if f.length < 5 then .error "index out of range"
  else if byteAt f 4 != 1 then .error "elf2mem: not ELF32"
  else if f.length < 6 then .error "index out of range"
  else if byteAt f 5 != 1 then .error "elf2mem: not little-endian"
  else if f.length < EHDR_SIZE then .error "unpack_from requires a buffer"
  else parsePhdrs f (List.range (ePhnum f))

/-- A word of the image, as it is written out and read back. -/
def imageWord (image : Nat → BitVec 8) (k : BitVec 14) : Word :=
  image (4 * k.toNat + 3) ++ image (4 * k.toNat + 2) ++ image (4 * k.toNat + 1) ++ image (4 * k.toNat)

def elf2mem (path : String) : Except String (BitVec 14 → Word) := do
  let segs ← parseElf f path
  return imageWord (segs.foldl place fun _ => 0)

end QinglongCore.Elf
