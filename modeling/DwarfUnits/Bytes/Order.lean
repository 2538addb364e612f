/-! Byte order and the unsigned value of a run of bytes. -/
namespace DwarfUnits

/-- Which end of a multi-byte word is stored first. -/
inductive ByteOrder where
  | little
  | big
  deriving DecidableEq

namespace ByteOrder

/-- The value of bytes whose first byte counts least. -/
def littleValue : List UInt8 → Nat
  | [] => 0
  | b :: rest => b.toNat + 256 * littleValue rest

def value : ByteOrder → List UInt8 → Nat
  | little, bytes => littleValue bytes
  | big, bytes => littleValue bytes.reverse

end ByteOrder
end DwarfUnits
