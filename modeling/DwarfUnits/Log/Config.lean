import DwarfUnits.Log.Level

/-! Where diagnostics go and what they look like. -/
namespace DwarfUnits.Log

/-- How a diagnostic is written. -/
inductive Style where
  | pretty
  | json
  deriving DecidableEq

namespace Style

/-- A style by one of its names, in any case of letters. -/
def ofText? (text : String) : Option Style :=
  match String.ofList (text.toList.map Char.toLower) with
  | "pretty" | "text" => some pretty
  | "json" => some json
  | _ => none

def unknownMessage (text : String) : String :=
  "Unknown log format: " ++ text ++ ". Use 'pretty' or 'json'"

end Style

/-- The wishes of a user about diagnostics. -/
structure Config where
  /-- Goes before any filter of the environment. -/
  level : Option Level
  style : Style
  /-- A file, or a directory for a file named by the date. -/
  file : Option String

namespace Config

def standard : Config := { level := none, style := .pretty, file := none }

/-- From the values of the environment. An unknown style and an empty path count as unset. -/
def ofEnvironment (style file : Option String) : Config :=
  { level := none
    style := (style.bind Style.ofText?).getD .pretty
    file := file.filter (· ≠ "") }

/-- A level that is given replaces the one before. -/
def withLevel (c : Config) (level : Option Level) : Config :=
  { c with level := level.or c.level }

end Config
end DwarfUnits.Log
