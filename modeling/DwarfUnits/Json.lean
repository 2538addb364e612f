/-! JSON values and their two written forms: indented, and on one line. -/
namespace DwarfUnits

/-- A JSON value whose numbers are natural. -/
inductive Json where
  | number (n : Nat)
  | flag (b : Bool)
  | string (s : String)
  | array (items : List Json)
  | object (fields : List (String × Json))

namespace Json

/-- A character inside quotes. The quote, the backslash and control characters are escaped. -/
def escape (c : Char) : List Char :=
  if c = '"' then ['\\', '"']
  else if c = '\\' then ['\\', '\\']
  else if c = '\x08' then ['\\', 'b']
  else if c = '\t' then ['\\', 't']
  else if c = '\n' then ['\\', 'n']
  else if c = '\x0c' then ['\\', 'f']
  else if c = '\r' then ['\\', 'r']
  else if c.toNat < 0x20 then
    ['\\', 'u', '0', '0', Nat.digitChar (c.toNat / 16), Nat.digitChar (c.toNat % 16)]
  else [c]

def quote (s : String) : String :=
  String.ofList ('"' :: s.toList.flatMap escape ++ ['"'])

/-- Where items stand: each on a line of its own, or all on one. -/
inductive Layout where
  | indented (depth : Nat)
  | compact

namespace Layout

def inner : Layout → Layout
  | indented depth => indented (depth + 1)
  | compact => compact

/-- What stands before an item and before a closing bracket. -/
def gap : Layout → String
  | indented depth => "\n" ++ String.ofList (List.replicate (2 * depth) ' ')
  | compact => ""

def colon : Layout → String
  | indented _ => ": "
  | compact => ":"

/-- Items between brackets; without items nothing stands between. -/
def enclose (layout : Layout) (opening closing : String) : List String → String
  | [] => opening ++ closing
  | items =>
    opening ++ String.intercalate "," (items.map (layout.inner.gap ++ ·)) ++ layout.gap ++ closing

end Layout

mutual

def write (layout : Layout) : Json → String
  | number n => toString n
  | flag b => if b then "true" else "false"
  | string s => quote s
  | array items => layout.enclose "[" "]" (writeItems layout.inner items)
  | object fields => layout.enclose "\x7b" "\x7d" (writeFields layout.inner fields)

def writeItems (layout : Layout) : List Json → List String
  | [] => []
  | item :: rest => write layout item :: writeItems layout rest

def writeFields (layout : Layout) : List (String × Json) → List String
  | [] => []
  | field :: rest => writeField layout field :: writeFields layout rest

def writeField (layout : Layout) : String × Json → String
  | (key, value) => quote key ++ layout.colon ++ write layout value

end

/-- The value with two spaces of indentation for each level. -/
def pretty (value : Json) : String := write (.indented 0) value

def line (value : Json) : String := write .compact value

end Json
end DwarfUnits
