import DwarfUnits.Container.SectionMap
import DwarfUnits.Files.Path
import DwarfUnits.Log.Line
import DwarfUnits.Program.Arguments
import DwarfUnits.Report.Writer
import DwarfUnits.Walk

/-! A run on one file: from its bytes to what the run leaves behind. How a container is opened and
what becomes of notices are for others to say. -/
namespace DwarfUnits.Program

/-- What a report run writes and how it ends. -/
structure Product where
  /-- The output as the run leaves it. -/
  out : Writer
  result : Except Error Unit
  notices : List Notice

/-- Put notices before those of a product. -/
def Product.after (p : Product) (notices : List Notice) : Product :=
  { p with notices := notices ++ p.notices }

def Product.failed (e : Error) (notices : List Notice) : Product :=
  { out := .empty, result := .error e, notices }

/-- Events outside any unit. -/
def outside (events : List Event) : List Notice := events.map (⟨none, ·⟩)

def strictnessOf (strict : Bool) : Strictness := if strict then .strict else .lenient

/-- Write the units before a walker, each before the next one is decoded. An error ends the loop
at once, with what was written until then. -/
def writeUnits (out : Writer) (w : Walker) : Product :=
  match _h : w.next with
  | none => { out, result := .ok (), notices := [] }
  | some step =>
    match step.item with
    | .error e => { out, result := .error e, notices := step.notices }
    | .ok record => (writeUnits (out.writeUnit record) step.walker).after step.notices
termination_by w.remaining
decreasing_by exact Walker.remaining_next _h

/-- The listing, written as the walk goes on. -/
def listUnits (sections : Sections) (strictness : Strictness) : Product :=
  writeUnits (Writer.empty.write listingHeader) (Walker.start sections strictness)

/-- The document, written when the walk is over. -/
def writeDocument (sections : Sections) (strictness : Strictness) : Product :=
  match walk sections strictness with
  | (.ok report, notices) => { out := Writer.empty.writeReport report, result := .ok (), notices }
  | (.error e, notices) => Product.failed e notices

def reportOn (format : OutputFormat) (sections : Sections) (strictness : Strictness) : Product :=
  match format with
  | .text => listUnits sections strictness
  | .json => writeDocument sections strictness

/-- The report on a file, given its bytes or why there are none. -/
def report (parser : Container.Parser) (arguments : Arguments)
    (content : Except Files.Fault ByteArray) : Product :=
  let (map, told) := Container.SectionMap.load parser arguments.file content
  let notices := outside
    (.readingSections arguments.file arguments.format.label arguments.strict :: told)
  match map >>= Container.SectionMap.toSections with
  | .error e => Product.failed e notices
  | .ok sections =>
    (reportOn arguments.format sections (strictnessOf arguments.strict)).after notices

/-- What a run leaves behind. -/
structure Results where
  status : Nat
  output : String
  /-- Diagnostics, on standard error and in the log file. -/
  lines : List Log.Line
  /-- The last words on standard error. -/
  failure : Option String
  /-- A reminder on standard error of how to call the program, in no fixed words. -/
  usage : Option String
  /-- Where the log file is, if there is one. -/
  logFile : Option Files.Place

def Results.message (status : Nat) (output : String) : Results :=
  { status, output, lines := [], failure := none, usage := none, logFile := none }

def logFailure (fault : Files.Fault) : String :=
  "Failed to initialize logging: File logging error: " ++ fault.message

def runFailure (e : Error) : String := "Error: " ++ e.message

/-- What a product leaves behind, given the lines that become of notices. -/
def Product.results (p : Product) (diagnose : List Notice → List Log.Line)
    (logFile : Option Files.Place) : Results :=
  { status := match p.result with
      | .ok () => 0
      | .error _ => 1
    output := p.out.close
    lines := diagnose p.notices
    failure := match p.result with
      | .ok () => none
      | .error e => some (runFailure e)
    usage := none
    logFile }

/-- A log file that is open, with the text of the path that led to it. -/
structure OpenLog where
  path : String
  place : Files.Place

/-- Report on a file, given what came of reading it and of opening the log file, if one is wanted.
A log file that cannot be opened ends the run before it begins. -/
def perform (parser : Container.Parser) (diagnose : List Notice → List Log.Line)
    (arguments : Arguments) (content : Except Files.Fault ByteArray)
    (log : Option (Except Files.Fault OpenLog)) : Results :=
  let product := report parser arguments content
  match log with
  | none => product.results diagnose none
  | some (.ok log) =>
    (product.after (outside [.loggingToFile log.path])).results diagnose (some log.place)
  | some (.error fault) => { Results.message 1 "" with failure := some (logFailure fault) }

end DwarfUnits.Program
