/-! The DWARF sections that data and messages refer to. -/
namespace DwarfUnits

/-- A DWARF section, whatever container it came from. -/
inductive SectionId where
  | info
  | abbrevs
  | lines
  | strings
  | lineStrings
  | stringOffsets
  | ranges
  | types
  | addresses
  | frames
  deriving DecidableEq

/-- The canonical name, as messages print it. -/
def SectionId.name : SectionId → String
  | .info => ".debug_info"
  | .abbrevs => ".debug_abbrev"
  | .lines => ".debug_line"
  | .strings => ".debug_str"
  | .lineStrings => ".debug_line_str"
  | .stringOffsets => ".debug_str_offsets"
  | .ranges => ".debug_ranges"
  | .types => ".debug_types"
  | .addresses => ".debug_addr"
  | .frames => ".eh_frame"

end DwarfUnits
