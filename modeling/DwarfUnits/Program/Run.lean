import DwarfUnits.Container.Read
import DwarfUnits.Files.Tree
import DwarfUnits.Program.Usage

/-! Runs with the diagnostics that an environment asks for, and in surroundings that are a value. -/
namespace DwarfUnits.Program

/-- What variables say of diagnostics. -/
structure Environment where
  filter : Option String
  style : Option String
  /-- The path to log to. -/
  logFile : Option String

namespace Environment

def config (e : Environment) (arguments : Arguments) : Log.Config :=
  (Log.Config.ofEnvironment e.style e.logFile).withLevel arguments.logLevel

/-- The lines that become of notices. -/
def diagnose (e : Environment) (arguments : Arguments) : List Notice → List Log.Line :=
  let config := e.config arguments
  Log.Line.writeAll config.style (Log.Filter.choose config.level e.filter)

end Environment

/-- What surrounds a run. -/
structure Surroundings extends Environment where
  /-- The day, for the name of a log file. -/
  date : String
  tree : Files.Tree

namespace Surroundings

/-- Open the log file that a user names by a path, which may change the tree. -/
def openLog (around : Surroundings) (path : String) :
    Except Files.Fault (Files.Tree × OpenLog) := do
  let path := around.tree.logPath around.date path
  let (tree, place) ← around.tree.openLog path
  return (tree, { path, place })

/-- Run on a file. It is read after the log file was opened. -/
def runOn (around : Surroundings) (arguments : Arguments) : Results :=
  let opened := (around.config arguments).file.map around.openLog
  let tree := match opened with
    | some (.ok (tree, _)) => tree
    | _ => around.tree
  perform Container.read (around.diagnose arguments) arguments
    (tree.read (Files.Path.ofText arguments.file)) (opened.map (·.map Prod.snd))

end Surroundings

/-- Run on a command line. -/
def run (words : List String) (around : Surroundings) : Results :=
  Id.run ((Request.ofWords words).answer fun arguments => return around.runOn arguments)

end DwarfUnits.Program
