import DwarfUnits.Format

/-! Headers of compilation units. -/
namespace DwarfUnits

/-- The header of a unit and the code of its root entry. -/
structure UnitHeader where
  offset : Nat
  format : Format
  length : UInt64
  version : UInt16
  /-- The unit type, which headers carry from version 5 on. -/
  kind : Option UInt8
  abbrevOffset : UInt64
  addressSize : UInt8
  /-- The declaration code of the root entry; zero if there is no entry. -/
  rootCode : UInt64

namespace UnitHeader

/-- The whole size of a unit, its initial length included. -/
def extentOf (format : Format) (length : UInt64) : Nat := format.lengthSize + length.toNat

def extent (h : UnitHeader) : Nat := extentOf h.format h.length

def next (h : UnitHeader) : Nat := h.offset + h.extent

theorem extent_pos (h : UnitHeader) : 0 < h.extent :=
  Nat.lt_of_lt_of_le h.format.lengthSize_pos (Nat.le_add_right ..)

/-- Offsets of units fit in 64 bits. -/
def offsetLimit : Nat := UInt64.size

/-- Pass over what a unit type adds to the header: an identifier for skeleton and split compile
units, a signature and a type offset for type units. -/
def skipExtra (format : Format) (kind : UInt8) : Decode Unit :=
  if kind = 4 ∨ kind = 5 then Decode.skip 8
  else if kind = 2 ∨ kind = 6 then do
    Decode.skip 8
    discard (Decode.offset format)
  else pure ()

/-- Unit type, abbreviation offset and address size, whose order changed in version 5. -/
def layout (format : Format) (version : UInt16) : Decode (Option UInt8 × UInt64 × UInt8) :=
  if version < 5 then do
    let abbrevOffset ← Decode.offset format
    let addressSize ← Decode.u8
    return (none, abbrevOffset, addressSize)
  else do
    let kind ← Decode.u8
    let addressSize ← Decode.u8
    let abbrevOffset ← Decode.offset format
    skipExtra format kind
    return (some kind, abbrevOffset, addressSize)

/-- The header at the position reached. An end that does not fit is refused as soon as the
length is known. -/
def decode : Decode UnitHeader := do
  let offset ← Decode.position
  let (length, format) ← Decode.initialLength
  if offsetLimit ≤ offset + extentOf format length then
    Decode.fail (.malformedUnit offset length)
  else
    let version ← Decode.u16
    let (kind, abbrevOffset, addressSize) ← layout format version
    let rootCode ← Decode.uleb128
    return { offset, format, length, version, kind, abbrevOffset, addressSize, rootCode }

end UnitHeader
end DwarfUnits
