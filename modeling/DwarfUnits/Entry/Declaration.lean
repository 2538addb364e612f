import DwarfUnits.Entry.Form

/-! Declarations of entries in an abbreviation table. -/
namespace DwarfUnits

structure AttributeSpec where
  attr : UInt64
  form : UInt64
  /-- The value, if the declaration itself holds it. -/
  constant : Option Int64

structure Declaration where
  code : UInt64
  tag : UInt64
  hasChildren : Bool
  /-- The specs in order, without the terminator. -/
  specs : List AttributeSpec

/-- The constant that a declaration stores after the forms that have one. -/
def AttributeSpec.decodeConstant (form : UInt64) : Decode (Option Int64) :=
  if form = Form.implicitConst.code then some <$> Decode.sleb128 else pure none

/-- The next spec; an attribute of zero ends the list whatever its form. -/
def AttributeSpec.decode : Decode (Option AttributeSpec) := do
  let attr ← Decode.uleb128
  let form ← Decode.uleb128
  if attr = 0 then return none
  else
    let constant ← decodeConstant form
    return some { attr, form, constant }

/-- The first declaration of a unit's table, which has to be that of the root entry. -/
def Declaration.decodeRoot (unit : UnitHeader) : Decode Declaration := do
  let code ← Decode.uleb128
  if code ≠ unit.rootCode then
    Decode.fail (.abbrevMismatch unit.offset unit.abbrevOffset unit.rootCode code)
  else
    let tag ← Decode.uleb128
    let children ← Decode.u8
    let specs ← Decode.collect AttributeSpec.decode
    return { code, tag, hasChildren := children ≠ 0, specs }

end DwarfUnits
