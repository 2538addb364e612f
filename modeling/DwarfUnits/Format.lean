import DwarfUnits.Decode

/-! The 32-bit and 64-bit DWARF formats, and the two fields whose width they settle. -/
namespace DwarfUnits

/-- The width of lengths and section offsets. -/
inductive Format where
  | dwarf32
  | dwarf64
  deriving DecidableEq

namespace Format

def offsetSize : Format → Nat
  | dwarf32 => 4
  | dwarf64 => 8

/-- Bytes of an initial length: a word, or an escape word and a double word. -/
def lengthSize : Format → Nat
  | dwarf32 => 4
  | dwarf64 => 12

/-- The word that announces a 64-bit initial length. -/
def escape : UInt32 := 0xffffffff

theorem lengthSize_pos (f : Format) : 0 < f.lengthSize := by
  cases f <;> simp [lengthSize]

end Format

namespace Decode

/-- A length and the format that its own width chooses. -/
def initialLength : Decode (UInt64 × Format) := do
  let first ← u32
  if first = Format.escape then
    let length ← u64
    return (length, .dwarf64)
  else return (first.toUInt64, .dwarf32)

def offset (format : Format) : Decode UInt64 := UInt64.ofNat <$> word format.offsetSize

end Decode
end DwarfUnits
