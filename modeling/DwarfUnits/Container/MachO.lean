import DwarfUnits.Container.Words

/-! Mach-O files: load commands and the sections of their segments. -/
namespace DwarfUnits.Container.MachO

/-- Sizes of the structures of a Mach-O file, and where their fields stand. -/
structure Shape where
  wide : Nat
  headerSize : Nat
  segmentCommand : Nat
  segmentSize : Nat
  sectionCount : Nat
  sectionSize : Nat
  size : Nat
  offset : Nat
  flags : Nat

def shape32 : Shape :=
  { wide := 4, headerSize := 28, segmentCommand := 0x1, segmentSize := 56, sectionCount := 48,
    sectionSize := 68, size := 36, offset := 40, flags := 56 }

def shape64 : Shape :=
  { wide := 8, headerSize := 32, segmentCommand := 0x19, segmentSize := 72, sectionCount := 64,
    sectionSize := 80, size := 40, offset := 48, flags := 64 }

def nameSize : Nat := 16

/-- Bytes of the code and size that every load command starts with. -/
def commandHeaderSize : Nat := 8

/-- Section types that have no bytes in the file. -/
def zeroFillTypes : List Nat := [1, 12, 18]

structure File where
  shape : Shape
  words : Words

namespace File

def long (f : File) (offset : Nat) : Nat := f.words.word offset 4

/-- The load commands between two offsets, each with its size; one that is too short or runs
past the end hides those after it. -/
def commandsFrom (f : File) (tableEnd : Nat) : Nat → Nat → List (Nat × Nat)
  | _, 0 => []
  | start, count + 1 =>
    if start + commandHeaderSize ≤ tableEnd then
      let size := f.long (start + 4)
      if commandHeaderSize ≤ size ∧ start + size ≤ tableEnd then
        (start, size) :: f.commandsFrom tableEnd (start + size) count
      else []
    else []

/-- The load commands; a table that is not all in the file has none. -/
def commands (f : File) : List (Nat × Nat) :=
  let size := f.long 20
  if f.words.covers f.shape.headerSize size then
    f.commandsFrom (f.shape.headerSize + size) f.shape.headerSize (f.long 16)
  else []

/-- Offsets of the section headers of a load command, if it is a segment. -/
def segmentSections (f : File) (start size : Nat) : Except Fault (List Nat) := do
  if f.long start ≠ f.shape.segmentCommand then return []
  require (f.shape.segmentSize ≤ size) .machCommandSize
  let count := f.long (start + f.shape.sectionCount)
  require (f.shape.segmentSize + count * f.shape.sectionSize ≤ size) .machSectionCount
  return (List.range count).map
    (fun i => start + f.shape.segmentSize + i * f.shape.sectionSize)

def isZeroFill (f : File) (header : Nat) : Bool :=
  zeroFillTypes.contains (f.long (header + f.shape.flags) % 256)

def sectionName (f : File) (header : Nat) : Option String :=
  textToZero? (f.words.bytes.extract header (header + nameSize)).data.toList

def data (f : File) (header : Nat) : Except Fault ByteArray :=
  if f.isZeroFill header then .ok .empty
  else
    match f.words.range? (f.long (header + f.shape.offset))
      (f.words.word (header + f.shape.size) f.shape.wide) with
    | some bytes => .ok bytes
    | none => .error .machSectionData

def toSection (f : File) (header : Nat) : Section :=
  { name := f.sectionName header, kind := .other, flags := .other, compression := .ok .none,
    data := f.data header }

end File

def read (shape : Shape) (order : ByteOrder) (bytes : ByteArray) : Except Fault Image := do
  require (shape.headerSize ≤ bytes.size) .machHeader
  let file : File := { shape, words := { order, bytes } }
  let headers ← file.commands.mapM (fun (start, size) => file.segmentSections start size)
  return { order, sections := headers.flatten.map file.toSection }

end DwarfUnits.Container.MachO
