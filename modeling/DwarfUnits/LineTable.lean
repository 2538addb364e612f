import DwarfUnits.Bytes.Text
import DwarfUnits.Format
import DwarfUnits.Sections

/-! Line table headers, up to the program that follows them. -/
namespace DwarfUnits

structure FileEntry where
  path : String
  /-- Index of a directory; zero is the directory of compilation. -/
  directoryIndex : UInt64
  deriving DecidableEq

/-- A header with the layout of versions 2 to 4. -/
structure LineHeader where
  offset : Nat
  format : Format
  length : UInt64
  version : UInt16
  /-- The declared size of what follows the field that declares it. -/
  headerLength : UInt64
  /-- Where that declared size counts from. -/
  headerStart : Nat
  minimumInstructionLength : UInt8
  /-- One before version 4, which has no such field. -/
  maximumOperations : UInt8
  defaultIsStatement : Bool
  lineBase : Int8
  lineRange : UInt8
  opcodeBase : UInt8
  opcodeLengths : List UInt8
  directories : List String
  files : List FileEntry
  /-- Bytes that the header takes from `headerStart` on. -/
  consumed : Nat

/-- A line table, as far as its version lets it be read. -/
inductive LineTable where
  | supported (header : LineHeader)
  | unsupported (offset : Nat) (version : UInt16)

namespace LineTable

/-- Versions with a header layout that is known here. -/
def isSupported (version : UInt16) : Bool := 2 ≤ version && version ≤ 4

/-- The next directory; an empty one ends the list. -/
def directory : Decode (Option String) := do
  let bytes ← Decode.cstring
  return if bytes.isEmpty then none else some (Text.ofBytes bytes)

/-- The next file, its time and size passed over; an empty path ends the list. -/
def file : Decode (Option FileEntry) := do
  let bytes ← Decode.cstring
  if bytes.isEmpty then return none
  else
    let directoryIndex ← Decode.uleb128
    discard Decode.uleb128
    discard Decode.uleb128
    let path := Text.ofBytes bytes
    Decode.emit (.lineTableFile path directoryIndex)
    return some { path, directoryIndex }

/-- What follows the version of a supported table. -/
def header (offset : Nat) (format : Format) (length : UInt64) (version : UInt16) :
    Decode LineHeader := do
  let headerLength ← Decode.offset format
  let headerStart ← Decode.position
  let minimumInstructionLength ← Decode.u8
  let maximumOperations ← if 4 ≤ version then Decode.u8 else pure 1
  let defaultIsStatement ← Decode.u8
  let lineBase ← Decode.i8
  let lineRange ← Decode.u8
  let opcodeBase ← Decode.u8
  let opcodeLengths ← Decode.take (opcodeBase.toNat - 1)
  let directories ← Decode.collect directory
  let files ← Decode.collect file
  let headerEnd ← Decode.position
  return {
    offset, format, length, version, headerLength, headerStart, minimumInstructionLength,
    maximumOperations, defaultIsStatement := defaultIsStatement ≠ 0, lineBase, lineRange,
    opcodeBase, opcodeLengths, directories, files, consumed := headerEnd - headerStart }

/-- The table at the position reached; nothing is read after an unsupported version. -/
def decode : Decode LineTable := do
  let offset ← Decode.position
  let (length, format) ← Decode.initialLength
  let version ← Decode.u16
  if isSupported version then supported <$> header offset format length version
  else
    Decode.emit (.unsupportedLineTable offset version)
    return unsupported offset version

def version : LineTable → UInt16
  | supported header => header.version
  | unsupported _ version => version

end LineTable

namespace LineHeader

def mismatch (h : LineHeader) : Error :=
  .headerLengthMismatch h.offset h.headerLength h.consumed

/-- Whether the tables end where the header declares. -/
def validate (h : LineHeader) : Except Error Unit :=
  if h.consumed = h.headerLength.toNat then .ok () else .error h.mismatch

/-- Where the program starts by the declared length, at most the largest 64-bit offset. -/
def programOffset (h : LineHeader) : Nat :=
  min (h.headerStart + h.headerLength.toNat) (UInt64.size - 1)

end LineHeader

namespace LineTable

/-- A table whose header length, if its version has one that is known, is right. -/
def decodeChecked : Decode LineTable := do
  let table ← decode
  match table with
  | supported header => Decode.ofExcept header.validate
  | unsupported .. => pure ()
  return table

/-- The line table at an offset, refused if its header length is wrong. -/
def read (sections : Sections) (offset : Nat) : Except Error LineTable :=
  sections.run .lines offset decodeChecked

end LineTable
end DwarfUnits
