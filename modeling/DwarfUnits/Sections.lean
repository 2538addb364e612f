import DwarfUnits.Decode

/-! The debug sections of one image. -/
namespace DwarfUnits

/-- The bytes a walk reads; the string tables may be absent. -/
structure Sections where
  order : ByteOrder
  info : ByteArray
  abbrevs : ByteArray
  lines : ByteArray
  strings : Option ByteArray
  lineStrings : Option ByteArray

namespace Sections

/-- The bytes of a section, if it is one of these five and present. -/
def get? (s : Sections) : SectionId → Option ByteArray
  | .info => some s.info
  | .abbrevs => some s.abbrevs
  | .lines => some s.lines
  | .strings => s.strings
  | .lineStrings => s.lineStrings
  | _ => none

def source (s : Sections) (id : SectionId) : Except Error Source :=
  match s.get? id with
  | some bytes => .ok { id, order := s.order, bytes }
  | none => .error (.missingSection id)

/-- The result of decoding at an offset of a section. -/
def run {α : Type} (s : Sections) (id : SectionId) (offset : Nat) (d : Decode α) :
    Except Error α := do
  let src ← s.source id
  let position ← src.start offset
  (d src position).result

/-- Decode at an offset of a section while decoding another. -/
def decodeAt {α : Type} (s : Sections) (id : SectionId) (offset : Nat) (d : Decode α) :
    Decode α :=
  Decode.elsewhere (s.source id) offset d

end Sections
end DwarfUnits
