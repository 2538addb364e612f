import DwarfUnits.Container.Image
import DwarfUnits.Event
import DwarfUnits.Sections

/-! The debug sections of a container: which of its sections count, and which win. -/
namespace DwarfUnits.Container

/-- Debug sections by identity, the newest first. -/
structure SectionMap where
  order : ByteOrder
  entries : List (SectionId × ByteArray)

/-- The debug section that a name in a container stands for. -/
def sectionId? : String → Option SectionId
  | ".debug_abbrev" | "__debug_abbrev" => some .abbrevs
  | ".debug_info" | "__debug_info" => some .info
  | ".debug_line" | "__debug_line" => some .lines
  | ".debug_line_str" | "__debug_line_str" => some .lineStrings
  | ".debug_str" | "__debug_str" => some .strings
  | _ => none

/-- Memory that starts as zeros has no bytes in the file. -/
def SectionKind.isStorageOnly : SectionKind → Bool
  | uninitializedData | uninitializedTls => true
  | other => false

namespace SectionFlags

/-- The bit of sections that belong to a group. -/
def groupFlag : UInt64 := 0x200

def isGroupMember : SectionFlags → Bool
  | elf word => word &&& groupFlag ≠ 0
  | other => false

end SectionFlags

/-- The bytes that a section gives to a debug section, if it counts, and what to tell of it.
Storage, group members and empty sections do not count. -/
def Section.contribution (s : Section) (name : String) (id : SectionId) :
    Except Error (Option (SectionId × ByteArray)) × List Event :=
  if s.kind.isStorageOnly then (.ok none, [.storageOnlySection name])
  else if s.flags.isGroupMember then (.ok none, [.groupMember name])
  else
    match s.compression with
    | .error fault => (.error (.container fault), [])
    | .ok format =>
      if format ≠ .none then (.error (.compressedSection name), [])
      else
        match s.data with
        | .error fault => (.error (.container fault), [])
        | .ok data =>
          if data.isEmpty then (.ok none, [.emptySection name])
          else (.ok (some (id, data)), [.foundSection name data.size])

/-- As `contribution`, for a section of any name. -/
def Section.choose (s : Section) : Except Error (Option (SectionId × ByteArray)) × List Event :=
  match s.name with
  | none => (.ok none, [])
  | some name =>
    match sectionId? name with
    | none => (.ok none, [])
    | some id => s.contribution name id

/-- The contributions of sections on top of earlier ones, up to the first error. -/
def gather (entries : List (SectionId × ByteArray)) :
    List Section → Except Error (List (SectionId × ByteArray)) × List Event
  | [] => (.ok entries, [])
  | s :: rest =>
    match s.choose with
    | (.error e, told) => (.error e, told)
    | (.ok found, told) =>
      let (result, more) := gather (found.toList ++ entries) rest
      (result, told ++ more)

namespace SectionMap

def ofImage (image : Image) : Except Error SectionMap × List Event :=
  let (result, told) := gather [] image.sections
  (result.map (fun entries => { order := image.order, entries }), told)

/-- The debug sections of a container that `parser` opens. -/
def parse (parser : Parser) (bytes : ByteArray) : Except Error SectionMap × List Event :=
  match parser bytes with
  | .error fault => (.error (.container fault), [])
  | .ok image => ofImage image

/-- The debug sections of a file, given its bytes or why there are none. -/
def load (parser : Parser) (path : String) (content : Except Files.Fault ByteArray) :
    Except Error SectionMap × List Event :=
  match content with
  | .error fault => (.error (.file fault), [])
  | .ok bytes =>
    let (map, told) := parse parser bytes
    (map, .readContainer path bytes.size :: told)

/-- The bytes of a debug section; the last of several counts. -/
def get? (m : SectionMap) (id : SectionId) : Option ByteArray :=
  (m.entries.find? (·.1 = id)).map (·.2)

def get (m : SectionMap) (id : SectionId) : Except Error ByteArray :=
  match m.get? id with
  | some bytes => .ok bytes
  | none => .error (.missingSection id)

/-- What a walk needs; the string tables may be absent. -/
def toSections (m : SectionMap) : Except Error Sections := do
  let info ← m.get .info
  let lines ← m.get .lines
  let abbrevs ← m.get .abbrevs
  return { order := m.order, info, abbrevs, lines, strings := m.get? .strings,
           lineStrings := m.get? .lineStrings }

end SectionMap
end DwarfUnits.Container
