import DwarfUnits.Report

/-! The listing of a report: one key and value on each line, nested by indentation. -/
namespace DwarfUnits

def unlines (lines : List String) : String := String.join (lines.map (· ++ "\n"))

def FileEntry.lines (f : FileEntry) : List String :=
  ["  - Path: " ++ f.path, "    DirectoryIndex: " ++ toString f.directoryIndex.toNat]

/-- A heading above lines, left out if there are none. -/
def headed (heading : String) (lines : List String) : List String :=
  if lines.isEmpty then [] else heading :: lines

def LineTableStatus.lines : LineTableStatus → List String
  | .headerLengthMismatch declared consumed =>
    ["  LineTableWarning: header was supposed to be " ++ toString declared.toNat
      ++ " bytes long, but it is " ++ toString consumed ++ " bytes long"]
  | _ => []

def LineTableRecord.lines (t : LineTableRecord) : List String :=
  ["  LineTableOffset: " ++ toString t.offset,
    "  LineTableVersion: " ++ toString t.version.toNat]
    ++ headed "  Directories:" (t.directories.map ("  - " ++ ·))
    ++ headed "  Files:" (t.files.flatMap FileEntry.lines)
    ++ t.status.lines

/-- A key and its value, left out if there is none. -/
def optionalLine (key : String) (value : Option String) : List String :=
  (value.map (key ++ ·)).toList

def UnitRecord.lines (u : UnitRecord) : List String :=
  ["- Offset: " ++ toString u.offset, "  AbbrevOffset: " ++ toString u.abbrevOffset.toNat]
    ++ optionalLine "  Name: " u.name
    ++ optionalLine "  CompDir: " u.compDir
    ++ (u.lineTable.map LineTableRecord.lines).getD []

def listingHeader : String := unlines ["CompilationUnits:"]

def UnitRecord.listing (u : UnitRecord) : String := unlines u.lines

/-- The listing of units, complete or as far as a walk came. -/
def listing (units : List UnitRecord) : String :=
  listingHeader ++ String.join (units.map UnitRecord.listing)

def Report.listing (r : Report) : String := DwarfUnits.listing r.units

end DwarfUnits
