import DwarfUnits.Json
import DwarfUnits.Report

/-! The JSON document of a report. Absent optional fields are left out. -/
namespace DwarfUnits

def FileEntry.json (f : FileEntry) : Json :=
  .object [("path", .string f.path), ("directory_index", .number f.directoryIndex.toNat)]

def LineTableStatus.json : LineTableStatus → Json
  | .decoded => .object [("kind", .string "decoded")]
  | .unsupportedVersion => .object [("kind", .string "unsupported_version")]
  | .headerLengthMismatch declared consumed =>
    .object [("kind", .string "header_length_mismatch"), ("declared", .number declared.toNat),
      ("consumed", .number consumed)]

def LineTableRecord.json (t : LineTableRecord) : Json :=
  .object [("offset", .number t.offset), ("version", .number t.version.toNat),
    ("status", t.status.json), ("directories", .array (t.directories.map .string)),
    ("files", .array (t.files.map FileEntry.json))]

/-- A field, left out if it has no value. -/
def optionalField (key : String) (value : Option Json) : List (String × Json) :=
  (value.map (key, ·)).toList

def UnitRecord.json (u : UnitRecord) : Json :=
  .object ([("offset", .number u.offset), ("version", .number u.version.toNat),
    ("abbrev_offset", .number u.abbrevOffset.toNat),
    ("address_size", .number u.addressSize.toNat)]
      ++ optionalField "name" (u.name.map .string)
      ++ optionalField "comp_dir" (u.compDir.map .string)
      ++ optionalField "line_table" (u.lineTable.map LineTableRecord.json))

def Report.json (r : Report) : Json := .object [("units", .array (r.units.map UnitRecord.json))]

/-- The indented document, ended by a line feed. -/
def Report.document (r : Report) : String := r.json.pretty ++ "\n"

end DwarfUnits
