import DwarfUnits.Json
import DwarfUnits.Log.Config
import DwarfUnits.Log.Filter

/-! Diagnostics as they are written, without the time that goes before. -/
namespace DwarfUnits.Log

inductive Line where
  | text (s : String)
  | object (fields : List (String × Json))

/-- The value of a field in a line for a reader. -/
def fieldText : FieldValue → String
  | .number n => toString n
  | .flag b => if b then "true" else "false"
  | .quoted s => "\"" ++ s ++ "\""
  | .shown s => s

def fieldJson : FieldValue → Json
  | .number n => .number n
  | .flag b => .flag b
  | .quoted s | .shown s => .string s

namespace UnitSpan

def text (u : UnitSpan) : String :=
  name ++ "\x7b" ++ fieldName ++ "=" ++ toString u.offset ++ "\x7d: "

def json (u : UnitSpan) : Json := .object [(fieldName, .number u.offset), ("name", .string name)]

end UnitSpan

namespace Line

/-- A level in a column of five. -/
def levelColumn (level : Level) : String :=
  String.ofList (List.replicate (5 - level.label.length) ' ') ++ level.label

def pretty (span : Option UnitSpan) (event : Event) : String :=
  levelColumn event.level ++ " " ++ (span.map UnitSpan.text).getD "" ++ event.origin.target
    ++ ": " ++ event.message
    ++ String.join (event.fields.map (fun (name, value) => " " ++ name ++ "=" ++ fieldText value))

def json (span : Option UnitSpan) (event : Event) : List (String × Json) :=
  let fields := ("message", .string event.message)
    :: event.fields.map (fun (name, value) => (name, fieldJson value))
  [("level", .string event.level.label), ("fields", .object fields),
    ("target", .string event.origin.target)]
    ++ match span with
      | some u => [("span", u.json), ("spans", .array [u.json])]
      | none => []

/-- The line of an event, with its span if that was entered. -/
def write (style : Style) (filter : Filter) (notice : Notice) : Line :=
  let span := if filter.entersUnits then notice.unit.map UnitSpan.mk else none
  match style with
  | .pretty => text (pretty span notice.event)
  | .json => object (json span notice.event)

def writeAll (style : Style) (filter : Filter) (notices : List Notice) : List Line :=
  (notices.filter filter.shows).map (write style filter)

/-- How many lines of a file a diagnostic takes. -/
def height : Line → Nat
  | text s => 1 + s.toList.count '\n'
  | object _ => 1

end Line
end DwarfUnits.Log
