import DwarfUnits.Bytes.Order
import DwarfUnits.Container.Fault

/-! What a container offers: a byte order and a table of sections. -/
namespace DwarfUnits.Container

/-- What a section is for. The kinds that take memory but no bytes of the file stand apart. -/
inductive SectionKind where
  | uninitializedData
  | uninitializedTls
  | other
  deriving DecidableEq

/-- The flags of a section, whose bits mean something else in other containers than ELF. -/
inductive SectionFlags where
  | elf (word : UInt64)
  | other
  deriving DecidableEq

/-- How the bytes of a section are stored. -/
inductive Compression where
  | none
  | zlib
  | zstandard
  | unknown
  deriving DecidableEq

/-- A section of a container. What cannot be read of it is known only when it is asked for. -/
structure Section where
  /-- `none` if the name cannot be read. -/
  name : Option String
  kind : SectionKind
  flags : SectionFlags
  compression : Except Fault Compression
  data : Except Fault ByteArray

/-- A container that could be opened, with its sections in table order. -/
structure Image where
  order : ByteOrder
  sections : List Section

/-- Opens containers. Which bytes are one, and what stands in it, is for the parser to say. -/
abbrev Parser := ByteArray → Except Fault Image

end DwarfUnits.Container
