import DwarfUnits.Pattern.Modes

/-! The parts of a pattern that hold no others, and how they are escaped. -/
namespace DwarfUnits.Pattern

inductive Atom where
  /-- A character for itself, perhaps given by a byte in two digits. -/
  | literal (c : Char) (isByte : Bool)
  | dot
  | edge
  | wordEdge
  /-- Digits, blanks or letters by one letter, or all but those. -/
  | shorthand (isNegated : Bool)

namespace Atom

/-- Whether an atom can be matched by stepping through bytes of text. There are no tables of
characters, so in Unicode mode neither cases nor kinds of characters can be told. Single bytes
must not split a character. -/
def isSupported (m : Modes) : Atom → Bool
  | literal c isByte => if m.unicode then !m.ignoresCase else !isByte || c.toNat < 0x80
  | dot => m.unicode
  | edge => true
  | wordEdge => !m.unicode
  | shorthand isNegated => !m.unicode && !isNegated

/-- Whether an atom may be a member of a bracket. -/
def isMember (m : Modes) : Atom → Bool
  | literal c _ => if m.unicode then !m.ignoresCase else c.toNat < 0x80
  | shorthand isNegated => !m.unicode && !isNegated
  | _ => false

def hexDigit? (c : Char) : Option Nat :=
  if c.isDigit then some (c.toNat - '0'.toNat)
  else if 'a' ≤ c && c ≤ 'f' then some (c.toNat - 'a'.toNat + 10)
  else if 'A' ≤ c && c ≤ 'F' then some (c.toNat - 'A'.toNat + 10)
  else none

/-- A number in a fixed count of hexadecimal digits, after digits that come to `value`. -/
def number? (m : Modes) (value : Nat) : Nat → List Char → Option (Nat × List Char)
  | 0, text => some (value, text)
  | count + 1, text =>
    match m.skip text with
    | [] => none
    | c :: rest => do
      let digit ← hexDigit? c
      number? m (16 * value + digit) count rest

/-- A character by its code point in a fixed count of digits. -/
def codePoint? (m : Modes) (count : Nat) (text : List Char) : Option (Atom × List Char) :=
  match number? m 0 count text with
  | some (n, rest) =>
    if n.isValidChar then some (literal (Char.ofNat n) (count = 2), rest) else none
  | none => none

/-- Control characters that have a letter. -/
def control? : Char → Option Char
  | 'a' => some '\x07'
  | 't' => some '\t'
  | 'n' => some '\n'
  | 'v' => some '\x0b'
  | 'f' => some '\x0c'
  | 'r' => some '\r'
  | _ => none

/-- What stands after a backslash. Signs stand for themselves, and letters only where they mean
something. -/
def escaped? (m : Modes) : List Char → Option (Atom × List Char)
  | [] => none
  | c :: rest =>
    match c with
    | 'x' => codePoint? m 2 rest
    | 'u' => codePoint? m 4 rest
    | 'U' => codePoint? m 8 rest
    | 'd' | 's' | 'w' => some (shorthand false, rest)
    | 'D' | 'S' | 'W' => some (shorthand true, rest)
    | 'A' | 'z' => some (edge, rest)
    | 'b' | 'B' | '<' | '>' => some (wordEdge, rest)
    | c =>
      if c.isAlphanum then (control? c).map (literal · false, rest)
      else if c.toNat < 0x80 then some (literal c false, rest)
      else none

def read? (m : Modes) (c : Char) (rest : List Char) : Option (Atom × List Char) :=
  match c with
  | '\\' => escaped? m rest
  | '.' => some (dot, rest)
  | '^' | '$' => some (edge, rest)
  | c => some (literal c false, rest)

/-- An atom inside brackets, where fewer characters mean something. -/
def readMember? (m : Modes) (c : Char) (rest : List Char) : Option (Atom × List Char) :=
  if c = '\\' then escaped? m rest else some (literal c false, rest)

end Atom
end DwarfUnits.Pattern
