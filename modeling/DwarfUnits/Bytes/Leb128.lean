/-! LEB128 integers: base 128, least digit first, the high bit set on every byte but the last. -/
namespace DwarfUnits.Leb128

/-- The byte that ends an encoding has its high bit clear. -/
def isLast (b : UInt8) : Bool := b < 0x80

/-- Digits on top of a value `start` of the digits above them, modulo `2 ^ 64`. -/
def fold (start : UInt64) (bytes : List UInt8) : UInt64 :=
  bytes.foldr (fun b above => (b &&& 0x7f).toUInt64 + 128 * above) start

/-- The unsigned value modulo `2 ^ 64`; digits past the word are dropped. -/
def unsigned (bytes : List UInt8) : UInt64 := fold 0 bytes

/-- Bit 6 of the last byte is the sign. -/
def isNegative (bytes : List UInt8) : Bool :=
  bytes.getLast?.any (fun b => b &&& 0x40 ≠ 0)

/-- The signed value modulo `2 ^ 64`; a negative number has ones above its digits. -/
def signed (bytes : List UInt8) : Int64 :=
  (fold (if isNegative bytes then -1 else 0) bytes).toInt64

end DwarfUnits.Leb128
