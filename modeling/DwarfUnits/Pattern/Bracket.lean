import DwarfUnits.Pattern.Atom
import DwarfUnits.Pattern.Row

/-! Brackets: sets of characters by their members, joined by operators. -/
namespace DwarfUnits.Pattern

structure Bracket where
  /-- How deep the operands before the last operator nest. -/
  left : Option Nat
  /-- Members since the last operator. -/
  members : Row

namespace Bracket

def empty : Bracket := { left := none, members := .empty }

def add (b : Bracket) (depth : Nat) : Bracket := { b with members := b.members.add depth }

/-- An operator is one level above its two operands. -/
def depth (b : Bracket) : Nat :=
  match b.left with
  | some left => max left b.members.depth + 1
  | none => b.members.depth

/-- What is read of a bracket behind an operator. -/
def join (b : Bracket) : Bracket := { left := some b.depth, members := .empty }

/-- Names of the sets that stand between colons. -/
def setNames : List String :=
  ["alnum", "alpha", "ascii", "blank", "cntrl", "digit", "graph", "lower", "print", "punct",
    "space", "upper", "word", "xdigit"]

/-- A named set, after its bracket: whether all but the set is meant. -/
def namedSet? (text : List Char) : Option (Bool × List Char) := do
  let (isNegated, text) ← match text with
    | ':' :: '^' :: rest => some (true, rest)
    | ':' :: rest => some (false, rest)
    | _ => none
  match text.dropWhile (· ≠ ':') with
  | ':' :: ']' :: rest =>
    if setNames.contains (String.ofList (text.takeWhile (· ≠ ':'))) then some (isNegated, rest)
    else none
  | _ => none

/-- Whether a set can stand in a bracket, be it named or a bracket itself. Bytes cannot be all but
some, as those would split characters. -/
def isSet (m : Modes) (isNegated : Bool) : Bool := m.unicode || !isNegated

/-- Whether a character can stand for itself in a bracket. -/
def isLiteral (m : Modes) (c : Char) : Bool := (Atom.literal c false).isMember m

/-- Minus signs that come first stand for themselves. -/
def readDashes? (m : Modes) (b : Bracket) : Nat → List Char → Option (Bracket × List Char)
  | 0, _ => none
  | fuel + 1, text =>
    match m.skip text with
    | '-' :: rest => if isLiteral m '-' then readDashes? m (b.add 0) fuel rest else none
    | rest => some (b, rest)

/-- The start of a bracket: a caret for all but its members, minus signs, and else a closing
bracket stand for themselves where they come first. `fuel` has to exceed the length of the text. -/
def start? (m : Modes) (fuel : Nat) (text : List Char) : Option (Bracket × List Char) := do
  let (isNegated, text) := match m.skip text with
    | '^' :: rest => (true, rest)
    | rest => (false, rest)
  if !isSet m isNegated then none
  else
    let (b, text) ← readDashes? m empty fuel text
    match text with
    | ']' :: rest =>
      if b.members.count ≠ 0 then some (b, text)
      else if isLiteral m ']' then some (b.add 0, rest)
      else none
    | _ => some (b, text)

/-- One member: an atom, or a range from one character to another that does not come before it. -/
def member? (m : Modes) (c : Char) (rest : List Char) : Option (List Char) := do
  let (first, rest) ← Atom.readMember? m c rest
  if !first.isMember m then none
  else
    match m.skip rest with
    | [] => none
    | '-' :: after =>
      if m.peek after = some ']' || m.peek after = some '-' then some ('-' :: after)
      else
        match m.skip after with
        | [] => none
        | c :: rest => do
          let (last, rest) ← Atom.readMember? m c rest
          match first, last with
          | .literal low _, .literal high _ =>
            if low ≤ high && last.isMember m then some rest else none
          | _, _ => none
    | rest => some rest

/-- Read a bracket to its end, inside the brackets `above`. Tells how deep it nests. -/
def read? (m : Modes) (b : Bracket) (above : List Bracket) : Nat → List Char →
    Option (Nat × List Char)
  | 0, _ => none
  | fuel + 1, text =>
    match m.skip text with
    | ']' :: rest =>
      match above with
      | [] => some (b.depth + 1, rest)
      | outer :: above => read? m (outer.add (b.depth + 1)) above fuel rest
    | '&' :: '&' :: rest | '-' :: '-' :: rest | '~' :: '~' :: rest =>
      read? m b.join above fuel rest
    | '[' :: rest =>
      match namedSet? rest with
      | some (isNegated, rest) =>
        if isLiteral m 'a' && isSet m isNegated then read? m (b.add 0) above fuel rest else none
      | none => do
        let (inner, rest) ← start? m fuel rest
        read? m inner (b :: above) fuel rest
    | c :: rest => do
      let rest ← member? m c rest
      read? m (b.add 0) above fuel rest
    | [] => none

/-- How deep the bracket nests that `text` begins with, after its opening sign. -/
def read (m : Modes) (text : List Char) : Option (Nat × List Char) := do
  let fuel := text.length + 1
  let (b, rest) ← start? m fuel text
  read? m b [] fuel rest

end Bracket
end DwarfUnits.Pattern
