import DwarfUnits.Unit.Header

/-! Attribute forms: their codes, and how many bytes a value of each form takes. -/
namespace DwarfUnits

/-- A form whose values show where they end, so that they can be passed over. -/
inductive Form where
  | addr
  | block2
  | block4
  | data2
  | data4
  | data8
  | string
  | block
  | block1
  | data1
  | flag
  | sdata
  | strp
  | udata
  | refAddr
  | ref1
  | ref2
  | ref4
  | ref8
  | refUdata
  | secOffset
  | exprloc
  | flagPresent
  | strx
  | addrx
  | refSup4
  | strpSup
  | data16
  | lineStrp
  | refSig8
  | implicitConst
  | loclistx
  | rnglistx
  | refSup8
  | strx1
  | strx2
  | strx3
  | strx4
  | addrx1
  | addrx2
  | addrx3
  | addrx4
  | gnuAddrIndex
  | gnuStrIndex
  | gnuRefAlt
  | gnuStrpAlt
  deriving DecidableEq

namespace Form

/-- The code of values that name their form in the data. -/
def indirectCode : UInt64 := 0x16

def code : Form → UInt64
  | addr => 0x01
  | block2 => 0x03
  | block4 => 0x04
  | data2 => 0x05
  | data4 => 0x06
  | data8 => 0x07
  | string => 0x08
  | block => 0x09
  | block1 => 0x0a
  | data1 => 0x0b
  | flag => 0x0c
  | sdata => 0x0d
  | strp => 0x0e
  | udata => 0x0f
  | refAddr => 0x10
  | ref1 => 0x11
  | ref2 => 0x12
  | ref4 => 0x13
  | ref8 => 0x14
  | refUdata => 0x15
  | secOffset => 0x17
  | exprloc => 0x18
  | flagPresent => 0x19
  | strx => 0x1a
  | addrx => 0x1b
  | refSup4 => 0x1c
  | strpSup => 0x1d
  | data16 => 0x1e
  | lineStrp => 0x1f
  | refSig8 => 0x20
  | implicitConst => 0x21
  | loclistx => 0x22
  | rnglistx => 0x23
  | refSup8 => 0x24
  | strx1 => 0x25
  | strx2 => 0x26
  | strx3 => 0x27
  | strx4 => 0x28
  | addrx1 => 0x29
  | addrx2 => 0x2a
  | addrx3 => 0x2b
  | addrx4 => 0x2c
  | gnuAddrIndex => 0x1f01
  | gnuStrIndex => 0x1f02
  | gnuRefAlt => 0x1f20
  | gnuStrpAlt => 0x1f21

def all : List Form :=
  [addr, block2, block4, data2, data4, data8, string, block, block1, data1, flag, sdata, strp,
    udata, refAddr, ref1, ref2, ref4, ref8, refUdata, secOffset, exprloc, flagPresent,
    strx, addrx, refSup4, strpSup, data16, lineStrp, refSig8, implicitConst, loclistx, rnglistx,
    refSup8, strx1, strx2, strx3, strx4, addrx1, addrx2, addrx3, addrx4, gnuAddrIndex,
    gnuStrIndex, gnuRefAlt, gnuStrpAlt]

/-- The form with a code; the indirect code stands for none. -/
def ofCode? (c : UInt64) : Option Form := all.find? (fun f => f.code == c)

theorem code_of_ofCode? {c : UInt64} {f : Form} (h : ofCode? c = some f) : f.code = c := by
  simpa using List.find?_some h

/-- How a value shows its own end. -/
inductive Layout where
  | fixed (width : Nat)
  | leb128
  | cstring
  /-- A word of `width` bytes that counts the bytes after it. -/
  | counted (width : Nat)
  /-- A LEB128 number that counts the bytes after it. -/
  | lebCounted

/-- The layout of a form's values in a unit. -/
def layout (unit : UnitHeader) : Form → Layout
  | flagPresent | implicitConst => .fixed 0
  | data1 | flag | ref1 | strx1 | addrx1 => .fixed 1
  | data2 | ref2 | strx2 | addrx2 => .fixed 2
  | strx3 | addrx3 => .fixed 3
  | data4 | ref4 | refSup4 | strx4 | addrx4 => .fixed 4
  | data8 | ref8 | refSig8 | refSup8 => .fixed 8
  | data16 => .fixed 16
  | addr => .fixed unit.addressSize.toNat
  | refAddr =>
    if unit.version ≤ 2 then .fixed unit.addressSize.toNat else .fixed unit.format.offsetSize
  | strp | lineStrp | secOffset | strpSup | gnuRefAlt | gnuStrpAlt =>
    .fixed unit.format.offsetSize
  | sdata | udata | refUdata | strx | addrx | loclistx | rnglistx | gnuAddrIndex
  | gnuStrIndex => .leb128
  | string => .cstring
  | block1 => .counted 1
  | block2 => .counted 2
  | block4 => .counted 4
  | block | exprloc => .lebCounted

def Layout.skip : Layout → Decode Unit
  | fixed width => Decode.skip width
  | leb128 => discard Decode.uleb128
  | cstring => discard Decode.cstring
  | counted width => do
    let count ← Decode.word width
    Decode.skip count
  | lebCounted => do
    let count ← Decode.uleb128
    Decode.skip count.toNat

end Form
end DwarfUnits
