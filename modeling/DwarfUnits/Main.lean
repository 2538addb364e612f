import DwarfUnits.Program.Run
import Std.Time

/-! The executable: it reads files and variables, and writes what a run leaves behind. -/
namespace DwarfUnits.Program

/-- The number of a refusal. Some calls give it counted down from zero. -/
def numberOfRefusal (code : UInt32) : UInt32 := min code (0 - code)

def systemText (details : String) (code : UInt32) : String :=
  details ++ " (os error " ++ toString (numberOfRefusal code) ++ ")"

/-- The refusal that an exception of the file system stands for. -/
def faultOf : IO.Error → Files.Fault
  | .noFileOrDirectory .. => .notFound
  | .alreadyExists .. => .alreadyExists
  | .inappropriateType _ code _ =>
    if numberOfRefusal code = 21 then .isADirectory else .notADirectory
  | .invalidArgument _ code details =>
    if numberOfRefusal code = 36 then .nameTooLong else .other (systemText details code)
  | .permissionDenied _ code details => .other (systemText details code)
  | e => .other (toString e)

def attempt {α : Type} (act : IO α) : IO (Except Files.Fault α) := do
  try
    return .ok (← act)
  catch e =>
    return .error (faultOf e)

/-- Directories can be opened but not read. -/
def isDirectory (path : String) : IO Bool := do
  let first ← attempt do
    let handle ← IO.FS.Handle.mk path .read
    handle.read 1
  match first with
  | .error .isADirectory => return true
  | _ => return false

def timeText (pattern : String) : IO String := do
  let now ← Std.Time.Timestamp.now
  return (Std.Time.DateTime.ofTimestampWithZone now Std.Time.TimeZone.UTC).format pattern

/-- The text of the directory above the last part of a path. -/
def directoryText (path : String) : String :=
  let root := if path.startsWith "/" then "/" else "./"
  root ++ String.intercalate "/" (Files.Path.ofText path).parts.dropLast

/-- Open the log file that a user names by a path. -/
def openLogFile (path : String) : IO (Except Files.Fault OpenLog) := do
  let path := Files.Path.logPath (← isDirectory path) (← timeText "uuuu-MM-dd") path
  let directory := directoryText path
  let file := Files.Path.join directory (Files.Path.ofText path).logFileName
  attempt do
    IO.FS.createDirAll directory
    discard (IO.FS.Handle.mk file .append)
    return { path, place := [file] }

def lineText (time : String) : Log.Line → String
  | .text s => time ++ " " ++ s ++ "\n"
  | .object fields => Json.line (.object (("timestamp", .string time) :: fields)) ++ "\n"

def Results.deliver (r : Results) : IO UInt32 := do
  let time ← timeText "uuuu-MM-dd'T'HH:mm:ss.SSSSSSSSSxxx"
  let log := String.join (r.lines.map (lineText time))
  for file in (r.logFile.bind List.head?).toList do
    let handle ← IO.FS.Handle.mk file .append
    handle.putStr log
  IO.print r.output
  IO.eprint (log ++ unlines r.failure.toList ++ r.usage.getD "")
  return r.status.toUInt32

/-- Report on a file of the system. -/
def start (arguments : Arguments) : IO Results := do
  let environment : Environment :=
    { filter := ← IO.getEnv "RUST_LOG"
      style := ← IO.getEnv "DWARFSRC_LOG_FORMAT"
      logFile := ← IO.getEnv "DWARFSRC_LOG_FILE" }
  let log ← (environment.config arguments).file.mapM openLogFile
  let content ← attempt (IO.FS.readBinFile arguments.file)
  return perform Container.read (environment.diagnose arguments) arguments content log

end DwarfUnits.Program

open DwarfUnits.Program in
def main (words : List String) : IO UInt32 := do
  (← (Request.ofWords words).answer start).deliver
