import DwarfUnits.Error
import DwarfUnits.Log.Level

/-! What the reader and the program report about their own work, as data. -/
namespace DwarfUnits

inductive FieldValue where
  | number (n : Nat)
  | flag (b : Bool)
  /-- Text that a log line quotes. -/
  | quoted (s : String)
  /-- Text that a log line shows as it is. -/
  | shown (s : String)

inductive Origin where
  | program
  | sections
  | walk
  | attributes
  | lineTable
  deriving DecidableEq

/-- The target that filters and log lines name. -/
def Origin.target : Origin → String
  | .program => "dwarfsrc"
  | .sections => "dwarfsrc_core::sections"
  | .walk => "dwarfsrc_core::dwarf::walker"
  | .attributes => "dwarfsrc_core::dwarf::attributes"
  | .lineTable => "dwarfsrc_core::dwarf::line"

/-- One thing worth telling. -/
inductive Event where
  | loggingToFile (path : String)
  | readingSections (path format : String) (strict : Bool)
  | readContainer (path : String) (size : Nat)
  | storageOnlySection (name : String)
  | groupMember (name : String)
  | emptySection (name : String)
  | foundSection (name : String) (size : Nat)
  | unitHeader (version : UInt16) (abbrevOffset : UInt64) (addressSize : UInt8) (next : Nat)
  | noRootEntry
  | rootAttribute (attr form : UInt64) (position : Nat)
  | unsupportedLineTable (offset : Nat) (version : UInt16)
  | lineTableFile (path : String) (directoryIndex : UInt64)
  | unreliableLineTable (error : Error)
  | unitPastEnd (next sectionEnd : Nat)
  | walkFinished (units : Nat)

namespace Event

def origin : Event → Origin
  | loggingToFile .. | readingSections .. => .program
  | readContainer .. | storageOnlySection .. | groupMember .. | emptySection ..
  | foundSection .. => .sections
  | unitHeader .. | noRootEntry | unreliableLineTable .. | unitPastEnd .. | walkFinished .. => .walk
  | rootAttribute .. => .attributes
  | unsupportedLineTable .. | lineTableFile .. => .lineTable

def level : Event → Log.Level
  | unreliableLineTable .. | unitPastEnd .. => .warn
  | readingSections .. => .info
  | loggingToFile .. | readContainer .. | foundSection .. | unitHeader .. | noRootEntry
  | unsupportedLineTable .. | walkFinished .. => .debug
  | storageOnlySection .. | groupMember .. | emptySection .. | rootAttribute ..
  | lineTableFile .. => .trace

def message : Event → String
  | loggingToFile .. => "logging to file"
  | readingSections .. => "reading debug sections"
  | readContainer .. => "read container"
  | storageOnlySection .. => "skipping storage-only section"
  | groupMember .. => "skipping section group member"
  | emptySection .. => "skipping empty section"
  | foundSection .. => "found debug section"
  | unitHeader .. => "unit header"
  | noRootEntry => "unit has no root entry"
  | rootAttribute .. => "root attribute"
  | unsupportedLineTable .. => "unsupported line table version"
  | lineTableFile .. => "line table file"
  | unreliableLineTable .. => "line table header is unreliable"
  | unitPastEnd .. => "unit extends past the end of .debug_info"
  | walkFinished .. => "walk finished"

/-- The fields in the order that log lines show them. -/
def fields : Event → List (String × FieldValue)
  | loggingToFile path => [("path", .shown path)]
  | readingSections path format strict =>
    [("file", .shown path), ("format", .shown format), ("strict", .flag strict)]
  | readContainer path size => [("path", .shown path), ("size", .number size)]
  | storageOnlySection name | groupMember name | emptySection name => [("name", .quoted name)]
  | foundSection name size => [("name", .quoted name), ("size", .number size)]
  | unitHeader version abbrevOffset addressSize next =>
    [("version", .number version.toNat), ("abbrev_offset", .number abbrevOffset.toNat),
      ("address_size", .number addressSize.toNat), ("next", .number next)]
  | noRootEntry => []
  | rootAttribute attr form position =>
    [("attribute", .number attr.toNat), ("form", .number form.toNat),
      ("position", .number position)]
  | unsupportedLineTable offset version =>
    [("offset", .number offset), ("version", .number version.toNat)]
  | lineTableFile path directoryIndex =>
    [("path", .shown path), ("directory_index", .number directoryIndex.toNat)]
  | unreliableLineTable error => [("error", .shown error.message)]
  | unitPastEnd next sectionEnd => [("next", .number next), ("end", .number sectionEnd)]
  | walkFinished units => [("units", .number units)]

end Event

/-- An event and the offset of the unit being decoded when it happened, if one was. -/
structure Notice where
  unit : Option Nat
  event : Event

end DwarfUnits
