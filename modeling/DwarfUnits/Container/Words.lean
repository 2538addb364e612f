import DwarfUnits.Bytes.Text
import DwarfUnits.Container.Image

/-! Words at offsets of a file, and the faults of files that are no containers. -/
namespace DwarfUnits.Container

namespace Fault

def noMagic : Fault := ⟨"Could not read file magic"⟩
def unknownMagic : Fault := ⟨"Unknown file magic"⟩
def unsupportedFormat : Fault := ⟨"Unsupported file format"⟩
def elfHeader : Fault := ⟨"Invalid ELF header size or alignment"⟩
def elfUnsupported : Fault := ⟨"Unsupported ELF header"⟩
def elfProgramCount : Fault := ⟨"Missing ELF section headers for e_phnum overflow"⟩
def elfProgramHeaderEntrySize : Fault := ⟨"Invalid ELF program header entry size"⟩
def elfProgramHeaders : Fault := ⟨"Invalid ELF program header size or alignment"⟩
def elfSectionHeaderEntrySize : Fault := ⟨"Invalid ELF section header entry size"⟩
def elfSectionHeaderOffset : Fault := ⟨"Invalid ELF section header offset or size"⟩
def elfSectionHeaders : Fault := ⟨"Invalid ELF section header offset/size/alignment"⟩
def elfNameTableMissing : Fault := ⟨"Missing ELF e_shstrndx"⟩
def elfNameTableIndex : Fault := ⟨"Invalid ELF e_shstrndx"⟩
def elfNameTableSize : Fault := ⟨"Invalid ELF shstrtab size"⟩
def elfCompressedOffset : Fault := ⟨"Invalid ELF compressed section offset"⟩
def elfCompressedSize : Fault := ⟨"Invalid ELF compressed section size"⟩
def elfCompressionType : Fault := ⟨"Unsupported ELF compression type"⟩
def elfSectionData : Fault := ⟨"Invalid ELF section size or offset"⟩
def machHeader : Fault := ⟨"Invalid Mach-O header size or alignment"⟩
def machCommandSize : Fault := ⟨"Invalid Mach-O command size"⟩
def machSectionCount : Fault := ⟨"Invalid Mach-O number of sections"⟩
def machSectionData : Fault := ⟨"Invalid Mach-O section size or offset"⟩

end Fault

structure Words where
  order : ByteOrder
  bytes : ByteArray

namespace Words

/-- Whether all of a range is in the file. A range of no bytes is, wherever it starts. -/
def covers (w : Words) (offset size : Nat) : Bool := size = 0 || offset + size ≤ w.bytes.size

/-- The bytes of a range, if all of it is in the file. -/
def range? (w : Words) (offset size : Nat) : Option ByteArray :=
  if w.covers offset size then some (w.bytes.extract offset (offset + size)) else none

/-- The unsigned word of `width` bytes at an offset, made of the bytes that there are. -/
def word (w : Words) (offset width : Nat) : Nat :=
  w.order.value (w.bytes.extract offset (offset + width)).data.toList

end Words

/-- Refuse with a fault unless a condition holds. -/
def require (condition : Bool) (fault : Fault) : Except Fault Unit :=
  if condition then .ok () else .error fault

/-- Text up to the first zero byte; `none` if it is not UTF-8. -/
def textToZero? (bytes : List UInt8) : Option String :=
  Text.ofBytes? (bytes.takeWhile (· ≠ 0))

end DwarfUnits.Container
