import DwarfUnits.Bytes.Text
import DwarfUnits.Entry.Declaration
import DwarfUnits.Sections

/-! Attributes of a root entry: the three that a report needs, and the way past all others. -/
namespace DwarfUnits

/-- An attribute value, as far as a tracked attribute can use it. -/
inductive AttributeValue where
  | text (bytes : List UInt8)
  /-- A string in a table, by its offset there. -/
  | textAt (table : SectionId) (offset : UInt64)
  /-- A section offset, or data that may stand for one. -/
  | offset (n : UInt64)
  | untracked

namespace AttributeValue

def decodeForm (unit : UnitHeader) : Form → Decode AttributeValue
  | .string => text <$> Decode.cstring
  | .strp => textAt .strings <$> Decode.offset unit.format
  | .lineStrp => textAt .lineStrings <$> Decode.offset unit.format
  | .secOffset => offset <$> Decode.offset unit.format
  | .data4 => offset <$> UInt32.toUInt64 <$> Decode.u32
  | .data8 => offset <$> Decode.u64
  | form => do
    (form.layout unit).skip
    return untracked

/-- A form that a value of an attribute cannot have. -/
def unknown {α : Type} (unit : UnitHeader) (attr code : UInt64) : Decode α :=
  Decode.fail (.unknownForm unit.offset attr code)

/-- A value of the form with a code, if there is such a form. -/
def decodeCode (unit : UnitHeader) (attr code : UInt64) : Decode AttributeValue :=
  match Form.ofCode? code with
  | some form => decodeForm unit form
  | none => unknown unit attr code

/-- The next value. An indirect value names its form first, neither indirect again nor one whose
value is in the declaration. -/
def decode (unit : UnitHeader) (attr code : UInt64) : Decode AttributeValue :=
  if code = Form.indirectCode then do
    let actual ← Decode.uleb128
    if actual = Form.implicitConst.code then unknown unit attr actual
    else decodeCode unit attr actual
  else decodeCode unit attr code

end AttributeValue

/-- What a report takes from a root entry. -/
structure RootAttributes where
  name : Option String
  compDir : Option String
  lineOffset : Option UInt64

namespace RootAttributes

def empty : RootAttributes := ⟨none, none, none⟩

def nameCode : UInt64 := 0x03
def lineOffsetCode : UInt64 := 0x10
def compDirCode : UInt64 := 0x1b

/-- The text of a value; a form that holds none is unknown to its attribute. -/
def text (unit : UnitHeader) (sections : Sections) (spec : AttributeSpec) :
    AttributeValue → Decode String
  | .text bytes => return Text.ofBytes bytes
  | .textAt table offset =>
    if (sections.get? table).isNone then Decode.fail (.missingStringTable unit.offset table)
    else Text.ofBytes <$> sections.decodeAt table offset.toNat Decode.cstring
  | _ => AttributeValue.unknown unit spec.attr spec.form

/-- Keep the value of one spec if a report needs it; a later value replaces an earlier one. -/
def set (unit : UnitHeader) (sections : Sections) (spec : AttributeSpec) (value : AttributeValue)
    (found : RootAttributes) : Decode RootAttributes := do
  if spec.attr = nameCode then
    let name ← text unit sections spec value
    return { found with name := some name }
  else if spec.attr = compDirCode then
    let compDir ← text unit sections spec value
    return { found with compDir := some compDir }
  else if spec.attr = lineOffsetCode then
    match value with
    | .offset n => return { found with lineOffset := some n }
    | _ => AttributeValue.unknown unit spec.attr spec.form
  else return found

def step (unit : UnitHeader) (sections : Sections) (found : RootAttributes)
    (spec : AttributeSpec) : Decode RootAttributes := do
  let value ← AttributeValue.decode unit spec.attr spec.form
  let position ← Decode.position
  Decode.emit (.rootAttribute spec.attr spec.form position)
  set unit sections spec value found

/-- Decode the values of all specs in order, starting at the first value. -/
def decode (unit : UnitHeader) (sections : Sections) (specs : List AttributeSpec) :
    Decode RootAttributes :=
  specs.foldlM (step unit sections) empty

end RootAttributes
end DwarfUnits
