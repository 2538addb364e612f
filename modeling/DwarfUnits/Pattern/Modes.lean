import DwarfUnits.Unicode.Class

/-! The modes in which the parts of a pattern are read, and how flags change them. -/
namespace DwarfUnits.Pattern

structure Modes where
  /-- Letters stand for both of their cases. -/
  ignoresCase : Bool
  /-- The pattern is about characters, else about single bytes. -/
  unicode : Bool
  /-- Blanks and comments may stand between the parts. -/
  spaced : Bool

namespace Modes

/-- The modes at the start of a pattern. -/
def initial : Modes := { ignoresCase := false, unicode := true, spaced := false }

/-- The rest from the first part on, past blanks and comments. A comment goes from a number sign to
the end of its line. -/
def skipFrom (inComment : Bool) : List Char → List Char
  | [] => []
  | c :: rest =>
    if inComment then skipFrom (c ≠ '\n') rest
    else if Unicode.isBlank c then skipFrom false rest
    else if c = '#' then skipFrom true rest
    else c :: rest

/-- The rest from the next part on. -/
def skip (m : Modes) (text : List Char) : List Char :=
  if m.spaced then skipFrom false text else text

/-- The next character, seen past blanks and one number sign. If nothing comes after those, the
first of them is seen. -/
def peek (m : Modes) (text : List Char) : Option Char :=
  let seen := match text.dropWhile Unicode.isBlank with
    | '#' :: rest => (rest.dropWhile Unicode.isBlank).head?
    | rest => rest.head?
  if m.spaced then seen.or text.head? else text.head?

/-- The flags that may be set. Those that say how lines end and what is matched first change
nothing in the reading of a pattern. -/
def flags : List Char := ['i', 'm', 's', 'U', 'u', 'R', 'x']

def set (m : Modes) (flag : Char) (on : Bool) : Modes :=
  match flag with
  | 'i' => { m with ignoresCase := on }
  | 'u' => { m with unicode := on }
  | 'x' => { m with spaced := on }
  | _ => m

/-- Read flags up to a colon or a closing parenthesis, which is left. A minus sign turns off the
flags after it. `seen` holds what was read before, the last first; nothing may come twice, and a
minus sign may not come last. -/
def read? (m : Modes) (seen : List Char) : List Char → Option (Modes × List Char)
  | [] => none
  | c :: rest =>
    if c = ':' || c = ')' then
      if seen.head? = some '-' then none else some (m, c :: rest)
    else if seen.contains c then none
    else if c = '-' then read? m (c :: seen) rest
    else if flags.contains c then read? (m.set c (!seen.contains '-')) (c :: seen) rest
    else none

end Modes
end DwarfUnits.Pattern
