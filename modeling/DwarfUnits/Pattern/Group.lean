import DwarfUnits.Pattern.Bracket

/-! Whole patterns: parts in a row, repeated, in branches and in groups. -/
namespace DwarfUnits.Pattern

/-- A group that is being read; the whole pattern is one too. -/
structure Group where
  /-- The modes to go back to at its end. -/
  outer : Modes
  /-- Branches up to the last bar. -/
  branches : Row
  /-- Parts since then. -/
  parts : Row
  /-- How deep the last part nests, if it can be repeated. -/
  last : Option Nat

namespace Group

def start (outer : Modes) : Group :=
  { outer, branches := .empty, parts := .empty, last := none }

/-- A part that can be repeated. -/
def add (g : Group) (depth : Nat) : Group :=
  { g with parts := g.parts.add depth, last := some depth }

/-- Flags are a part that cannot be repeated. -/
def addFlags (g : Group) : Group := { g with parts := g.parts.add 0, last := none }

/-- A repetition is one level above its part, and takes its place. -/
def repeatLast (g : Group) : Option Group :=
  g.last.map fun depth =>
    { g with
      parts := { g.parts with deepest := max g.parts.deepest (depth + 1) }
      last := some (depth + 1) }

def bar (g : Group) : Group :=
  { g with branches := g.branches.add g.parts.depth, parts := .empty, last := none }

/-- How deep the branches nest, together with the open one. -/
def depth (g : Group) : Nat := g.bar.branches.depth

end Group

/-- What was read of a pattern. -/
structure Reading where
  modes : Modes
  names : List (List Char)
  group : Group
  /-- The groups around it. -/
  above : List Group

namespace Reading

def start : Reading :=
  { modes := .initial, names := [], group := .start .initial, above := [] }

def add (r : Reading) (depth : Nat) : Reading := { r with group := r.group.add depth }

/-- Open a group in which other modes may hold. -/
def openGroup (r : Reading) (modes : Modes) : Reading :=
  { r with modes, group := .start r.modes, above := r.group :: r.above }

/-- A group is one level above its branches. -/
def closeGroup (r : Reading) : Option Reading :=
  match r.above with
  | [] => none
  | outer :: above =>
    some { r with modes := r.group.outer, group := outer.add (r.group.depth + 1), above }

/-- What a name of a group may be made of. -/
def isNameChar (c : Char) : Bool :=
  c = '_' || c = '.' || c = '[' || c = ']' || Unicode.isAlphanumeric c

/-- Open a group with a name that no other has. It begins like a word. -/
def openNamed? (r : Reading) (text : List Char) : Option (Reading × List Char) :=
  let name := text.takeWhile (· ≠ '>')
  match text.drop name.length with
  | '>' :: rest =>
    if !name.head?.any (fun c => c = '_' || Unicode.isAlphabetic c) || !name.all isNameChar
        || r.names.contains name then none
    else some ({ r.openGroup r.modes with names := name :: r.names }, rest)
  | _ => none

/-- Open a group with flags, or set them up to the end of this group. -/
def openFlags? (r : Reading) (text : List Char) : Option (Reading × List Char) :=
  match text with
  | ')' :: _ => none
  | _ => do
    let (modes, rest) ← r.modes.read? [] text
    match rest with
    | ':' :: rest => some (r.openGroup modes, rest)
    | _ :: rest => some ({ r with modes, group := r.group.addFlags }, rest)
    | [] => none

/-- What stands after an opening parenthesis. Looking ahead or behind is not possible. -/
def openGroup? (r : Reading) (text : List Char) : Option (Reading × List Char) :=
  match r.modes.skip text with
  | '?' :: '=' :: _ | '?' :: '!' :: _ | '?' :: '<' :: '=' :: _ | '?' :: '<' :: '!' :: _ => none
  | '?' :: 'P' :: '<' :: rest | '?' :: '<' :: rest => r.openNamed? rest
  | '?' :: rest => r.openFlags? rest
  | rest => some (r.openGroup r.modes, rest)

/-- One part of a pattern, or one sign between its parts. Counted repetitions, which a closing
brace would have to end, are not read. -/
def step (r : Reading) (c : Char) (rest : List Char) : Option (Reading × List Char) :=
  match c with
  | '(' => r.openGroup? rest
  | ')' => r.closeGroup.map (·, rest)
  | '|' => some ({ r with group := r.group.bar }, rest)
  | '[' => do
    let (depth, rest) ← Bracket.read r.modes rest
    return (r.add depth, rest)
  | '*' | '+' | '?' => do
    let group ← r.group.repeatLast
    let rest := match rest with
      | '?' :: rest => rest
      | rest => rest
    return ({ r with group }, rest)
  | '\x7b' => none
  | c => do
    let (atom, rest) ← Atom.read? r.modes c rest
    if atom.isSupported r.modes then some (r.add 0, rest) else none

def run (r : Reading) : Nat → List Char → Option Reading
  | 0, _ => none
  | fuel + 1, text =>
    match r.modes.skip text with
    | [] => some r
    | c :: rest => do
      let (next, rest) ← r.step c rest
      next.run fuel rest

end Reading

/-- How many levels a pattern may have. -/
def maxDepth : Nat := 250

/-- Whether a text is a pattern: its groups are all closed, and it does not nest too deep. -/
def isValid (text : List Char) : Bool :=
  (Reading.start.run (text.length + 1) text).any fun r =>
    r.above.isEmpty && r.group.depth ≤ maxDepth

end DwarfUnits.Pattern
