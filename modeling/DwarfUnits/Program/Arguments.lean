import DwarfUnits.Log.Level

/-! The command line: one file and a few options. -/
namespace DwarfUnits.Program

inductive OutputFormat where
  | text
  | json
  deriving DecidableEq

namespace OutputFormat

/-- A format by its name on the command line. -/
def ofText? : String → Option OutputFormat
  | "text" => some text
  | "json" => some json
  | _ => none

/-- The name that diagnostics use. -/
def label : OutputFormat → String
  | text => "Text"
  | json => "Json"

end OutputFormat

structure Arguments where
  file : String
  format : OutputFormat
  strict : Bool
  logLevel : Option Log.Level

/-- What a command line asks for. -/
inductive Request where
  | run (arguments : Arguments)
  | help (isLong : Bool)
  | version
  | misuse

/-- What has been found of a command line so far. -/
structure Found where
  file : Option String
  format : Option OutputFormat
  strict : Bool
  logLevel : Option Log.Level

namespace Found

def nothing : Found := { file := none, format := none, strict := false, logLevel := none }

/-- The one file; a second one and an empty name are refused. -/
def setFile? (f : Found) (name : String) : Option Found :=
  if f.file.isSome || name = "" then none else some { f with file := some name }

/-- An option that takes a value, refused when it is not known, repeated or has a wrong value. -/
def setOption? (f : Found) (name value : String) : Option Found :=
  match name with
  | "--format" =>
    if f.format.isSome then none
    else (OutputFormat.ofText? value).map (fun v => { f with format := some v })
  | "--log-level" =>
    if f.logLevel.isSome then none
    else (Log.Level.ofText? value).map (fun v => { f with logLevel := some v })
  | _ => none

/-- An option without a value. -/
def setFlag? (f : Found) : String → Option Found
  | "--strict" => if f.strict then none else some { f with strict := true }
  | _ => none

/-- What is asked for at the end of a command line, which has to name a file. -/
def request (f : Found) : Request :=
  match f.file with
  | none => .misuse
  | some file =>
    .run { file, format := f.format.getD .text, strict := f.strict, logLevel := f.logLevel }

/-- Words after a double dash are files. -/
def files (f : Found) : List String → Request
  | [] => f.request
  | word :: rest =>
    match f.setFile? word with
    | some f => f.files rest
    | none => .misuse

end Found

inductive Word where
  | name (text : String)
  | endOfOptions
  /-- A long option whose value stands in the same word. -/
  | valued (option value : String)
  | long (option : String)
  | help (isLong : Bool)
  | version
  | unknown

/-- A single dash is a name; short options may be followed by others in the same word. -/
def Word.ofText (text : String) : Word :=
  match text.toList with
  | ['-'] => .name text
  | ['-', '-'] => .endOfOptions
  | '-' :: '-' :: rest =>
    let option := String.ofList ('-' :: '-' :: rest.takeWhile (· ≠ '='))
    match rest.dropWhile (· ≠ '=') with
    | _ :: value => .valued option (String.ofList value)
    | [] =>
      match option with
      | "--help" => .help true
      | "--version" => .version
      | _ => .long option
  | '-' :: 'h' :: _ => .help false
  | '-' :: 'V' :: _ => .version
  | '-' :: _ => .unknown
  | _ => .name text

/-- Long options that take the next word as their value. -/
def takesValue (option : String) : Bool := option = "--format" || option = "--log-level"

/-- Read words from the left. The first one that is wrong or asks for help or the version
decides. -/
def Found.read (f : Found) : List String → Request
  | [] => f.request
  | word :: rest =>
    match Word.ofText word with
    | .name text =>
      match f.setFile? text with
      | some f => f.read rest
      | none => .misuse
    | .endOfOptions => f.files rest
    | .valued option value =>
      match f.setOption? option value with
      | some f => f.read rest
      | none => .misuse
    | .long option =>
      if takesValue option then
        match rest with
        | [] => .misuse
        | value :: rest =>
          match Word.ofText value with
          | .name value =>
            match f.setOption? option value with
            | some f => f.read rest
            | none => .misuse
          | _ => .misuse
      else
        match f.setFlag? option with
        | some f => f.read rest
        | none => .misuse
    | .help isLong => .help isLong
    | .version => .version
    | .unknown => .misuse

def Request.ofWords (words : List String) : Request := Found.nothing.read words

end DwarfUnits.Program
