import DwarfUnits.Container.Fault
import DwarfUnits.Files.Fault
import DwarfUnits.SectionId

/-! Why reading a DWARF image fails, and how each cause is worded. -/
namespace DwarfUnits

/-- A failure of the reader. Offsets are within the section that the cause concerns. -/
inductive Error where
  | missingSection (id : SectionId)
  /-- A debug section is stored compressed, under the name that the container gives it. -/
  | compressedSection (name : String)
  /-- The end of a unit does not fit in 64 bits. -/
  | malformedUnit (offset : Nat) (length : UInt64)
  /-- The declaration table of a unit does not start with its root's code. -/
  | abbrevMismatch (unitOffset : Nat) (abbrevOffset expected found : UInt64)
  /-- A form that cannot be sized, or that its attribute cannot have. -/
  | unknownForm (unitOffset : Nat) (attr form : UInt64)
  /-- A string table is referred to and absent. -/
  | missingStringTable (unitOffset : Nat) (table : SectionId)
  /-- A line table header is not as long as it declares. -/
  | headerLengthMismatch (offset : Nat) (declared : UInt64) (consumed : Nat)
  /-- A read of `needed` bytes at `offset` passes the end of a section. -/
  | outOfBounds (id : SectionId) (offset needed : Nat)
  | container (fault : Container.Fault)
  | file (fault : Files.Fault)
  deriving DecidableEq

namespace Error

/-- Lower-case hexadecimal with its usual mark. -/
def hex (n : UInt64) : String := "0x" ++ String.ofList (Nat.toDigits 16 n.toNat)

def message : Error → String
  | missingSection id => "Failed to find " ++ id.name ++ " section"
  | compressedSection name =>
    "Section " ++ name ++ " is compressed, which is not supported"
  | malformedUnit offset length =>
    "Malformed compilation unit at offset " ++ toString offset ++ ": unit length "
      ++ toString length.toNat ++ " does not advance the walk"
  | abbrevMismatch unitOffset abbrevOffset expected found =>
    "Abbreviation code mismatch in compilation unit at offset " ++ toString unitOffset
      ++ ": expected " ++ toString expected.toNat ++ ", found " ++ toString found.toNat
      ++ " at abbreviation offset " ++ toString abbrevOffset.toNat
  | unknownForm unitOffset attr form =>
    "Unknown DW_FORM " ++ hex form ++ " for attribute " ++ hex attr
      ++ " in compilation unit at offset " ++ toString unitOffset
  | missingStringTable unitOffset table =>
    "Failed to find " ++ table.name
      ++ " section, but it is referenced by compilation unit at offset " ++ toString unitOffset
  | headerLengthMismatch offset declared consumed =>
    "Invalid .debug_line header at offset " ++ toString offset
      ++ ". Header was supposed to be " ++ toString declared.toNat ++ " bytes long, but it is "
      ++ toString consumed ++ " bytes long"
  | outOfBounds id offset needed =>
    "Read of " ++ toString needed ++ " bytes at offset " ++ toString offset
      ++ " runs past the end of " ++ id.name
  | container fault => "Failed to parse object file: " ++ fault.message
  | file fault => "IO error: " ++ fault.message

/-- Whether only the line table of one unit is in doubt, so that the walk may go on. -/
def isUnitLocal : Error → Bool
  | headerLengthMismatch .. => true
  | _ => false

end Error
end DwarfUnits
