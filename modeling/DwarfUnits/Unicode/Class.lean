import DwarfUnits.Unicode.Alphabetic
import DwarfUnits.Unicode.Numeric

/-! Classes of characters: blanks, letters and digits of any script. -/
namespace DwarfUnits.Unicode

/-- Whether a character lies in one of some ranges of code points. -/
def inRanges (ranges : List (Nat × Nat)) (c : Char) : Bool :=
  ranges.any (fun (first, last) => first ≤ c.toNat && c.toNat ≤ last)

def isBlank (c : Char) : Bool :=
  (9 ≤ c.toNat && c.toNat ≤ 13) || c = ' ' || c = '\x85' || c = '\xa0' || c = '\u1680'
    || (0x2000 ≤ c.toNat && c.toNat ≤ 0x200a) || c = '\u2028' || c = '\u2029' || c = '\u202f'
    || c = '\u205f' || c = '\u3000'

def isAlphabetic (c : Char) : Bool :=
  if c.toNat < 0x80 then c.isAlpha else inRanges alphabetic c

/-- Alphabetic characters, and those of a numeric category. -/
def isAlphanumeric (c : Char) : Bool := isAlphabetic c || c.isDigit || inRanges numeric c

end DwarfUnits.Unicode
