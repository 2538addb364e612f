import DwarfUnits.Container.Words

/-! ELF files: the header, the section header table and the names of sections. -/
namespace DwarfUnits.Container.Elf

/-- Sizes of the structures of an ELF class, and where their fields stand. -/
structure Shape where
  wide : Nat
  headerSize : Nat
  programOffset : Nat
  sectionOffset : Nat
  programEntrySize : Nat
  programCount : Nat
  sectionEntrySize : Nat
  sectionCount : Nat
  nameTableIndex : Nat
  programSize : Nat
  sectionSize : Nat
  flags : Nat
  offset : Nat
  size : Nat
  link : Nat
  info : Nat
  compressionSize : Nat

def shape32 : Shape :=
  { wide := 4, headerSize := 52, programOffset := 28, sectionOffset := 32,
    programEntrySize := 42, programCount := 44, sectionEntrySize := 46, sectionCount := 48,
    nameTableIndex := 50, programSize := 32, sectionSize := 40,
    flags := 8, offset := 16, size := 20, link := 24, info := 28, compressionSize := 12 }

def shape64 : Shape :=
  { wide := 8, headerSize := 64, programOffset := 32, sectionOffset := 40,
    programEntrySize := 54, programCount := 56, sectionEntrySize := 58, sectionCount := 60,
    nameTableIndex := 62, programSize := 56, sectionSize := 64,
    flags := 8, offset := 24, size := 32, link := 40, info := 44, compressionSize := 24 }

structure File where
  shape : Shape
  words : Words

/-- Counts too large for a 16-bit field stand in the first section header. -/
def manyPrograms : Nat := 0xffff
def farNameTable : Nat := 0xffff

def typeNoBits : Nat := 8
def flagThreadLocal : Nat := 0x400
def flagCompressed : Nat := 0x800

def offsetLimit : Nat := UInt64.size

def hasFlag (flags flag : Nat) : Bool := flags / flag % 2 = 1

namespace File

def half (f : File) (offset : Nat) : Nat := f.words.word offset 2

def long (f : File) (offset : Nat) : Nat := f.words.word offset 4

def wide (f : File) (offset : Nat) : Nat := f.words.word offset f.shape.wide

/-- Where the section header table starts; zero if there is none. -/
def sectionTable (f : File) : Nat := f.wide f.shape.sectionOffset

/-- The offset of the first section header, needed when a count does not fit in its field. -/
def firstSection (f : File) : Except Fault Nat := do
  require (f.half f.shape.sectionEntrySize = f.shape.sectionSize) .elfSectionHeaderEntrySize
  require (f.words.covers f.sectionTable f.shape.sectionSize) .elfSectionHeaderOffset
  return f.sectionTable

/-- Program headers are not used, but have to be well placed. -/
def checkPrograms (f : File) : Except Fault Unit := do
  let table := f.wide f.shape.programOffset
  if table = 0 then return
  let short := f.half f.shape.programCount
  let count ←
    if short < manyPrograms then pure short
    else if f.sectionTable = 0 then .error .elfProgramCount
    else do
      let first ← f.firstSection
      pure (f.long (first + f.shape.info))
  if count = 0 then return
  require (f.half f.shape.programEntrySize = f.shape.programSize) .elfProgramHeaderEntrySize
  require (f.words.covers table (count * f.shape.programSize)) .elfProgramHeaders

/-- Offsets of the section headers, the first of which stands for no section. -/
def headers (f : File) : Except Fault (List Nat) := do
  if f.sectionTable = 0 then return []
  let short := f.half f.shape.sectionCount
  let count ←
    if 0 < short then pure short
    else do
      let first ← f.firstSection
      pure (f.wide (first + f.shape.size))
  if count = 0 then return []
  require (f.half f.shape.sectionEntrySize = f.shape.sectionSize) .elfSectionHeaderEntrySize
  require (f.words.covers f.sectionTable (count * f.shape.sectionSize)) .elfSectionHeaders
  return (List.range count).map (fun i => f.sectionTable + i * f.shape.sectionSize)

def sectionType (f : File) (header : Nat) : Nat := f.long (header + 4)

def flags (f : File) (header : Nat) : Nat := f.wide (header + f.shape.flags)

def offset (f : File) (header : Nat) : Nat := f.wide (header + f.shape.offset)

def size (f : File) (header : Nat) : Nat := f.wide (header + f.shape.size)

/-- The table of section names; empty if its bytes are not all in the file. -/
def nameTable (f : File) (headers : List Nat) : Except Fault ByteArray := do
  if headers.isEmpty then return .empty
  let short := f.half f.shape.nameTableIndex
  let index ←
    if short = farNameTable then do
      let first ← f.firstSection
      pure (f.long (first + f.shape.link))
    else pure short
  require (index ≠ 0) .elfNameTableMissing
  match headers[index]? with
  | none => .error .elfNameTableIndex
  | some header =>
    if f.sectionType header = typeNoBits then return .empty
    require (f.offset header + f.size header < offsetLimit) .elfNameTableSize
    return (f.words.range? (f.offset header) (f.size header)).getD .empty

/-- A name from its offset in the table; it has to end inside it. -/
def sectionName (f : File) (names : ByteArray) (header : Nat) : Option String :=
  let rest := names.data.toList.drop (f.long header)
  if rest.contains 0 then textToZero? rest else none

def kind (f : File) (header : Nat) : SectionKind :=
  if f.sectionType header ≠ typeNoBits then .other
  else if hasFlag (f.flags header) flagThreadLocal then .uninitializedTls
  else .uninitializedData

/-- How a section is compressed. One that says so has to start with a known header. -/
def compression (f : File) (header : Nat) : Except Fault Compression := do
  if !hasFlag (f.flags header) flagCompressed then return .none
  require (f.words.covers (f.offset header) f.shape.compressionSize) .elfCompressedOffset
  require (f.shape.compressionSize ≤ f.size header) .elfCompressedSize
  match f.long (f.offset header) with
  | 1 => return .zlib
  | 2 => return .zstandard
  | _ => .error .elfCompressionType

def data (f : File) (header : Nat) : Except Fault ByteArray :=
  match f.words.range? (f.offset header) (f.size header) with
  | some bytes => .ok bytes
  | none => .error .elfSectionData

def toSection (f : File) (names : ByteArray) (header : Nat) : Section :=
  { name := f.sectionName names header
    kind := f.kind header
    flags := .elf (UInt64.ofNat (f.flags header))
    compression := f.compression header
    data := f.data header }

end File

/-- Open a file of a known class. Its header names a byte order and the one known version. -/
def read (shape : Shape) (bytes : ByteArray) : Except Fault Image := do
  require (shape.headerSize ≤ bytes.size) .elfHeader
  let ident := (bytes.extract 5 7).data.toList
  let order ← match ident with
    | [1, 1] => pure ByteOrder.little
    | [2, 1] => pure ByteOrder.big
    | _ => .error .elfUnsupported
  let file : File := { shape, words := { order, bytes } }
  file.checkPrograms
  let headers ← file.headers
  let names ← file.nameTable headers
  return { order, sections := headers.tail.map (file.toSection names) }

end DwarfUnits.Container.Elf
