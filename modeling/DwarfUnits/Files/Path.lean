/-! Paths as the parts between their slashes. -/
namespace DwarfUnits.Files

/-- The names on the way down from the root. -/
abbrev Place := List String

structure Path where
  /-- The path begins at the root, else at the working directory. -/
  isAbsolute : Bool
  /-- Parts that are neither empty nor a single dot. -/
  parts : List String
  /-- A final slash or dot asks for a directory. -/
  asksDirectory : Bool
  size : Nat

namespace Path

def up : String := ".."

def maxPart : Nat := 255

def maxSize : Nat := 4095

def ofText (text : String) : Path :=
  let pieces := (text.toList.splitOn '/').map String.ofList
  let isPart (s : String) : Bool := s ≠ "" && s ≠ "."
  { isAbsolute := text.toList.head? = some '/'
    parts := pieces.filter isPart
    asksDirectory := pieces.getLast?.any (!isPart ·)
    size := text.utf8ByteSize }

/-- The text of a file in a directory given by its own text. -/
def join (directory file : String) : String :=
  if directory.toList.getLast? = some '/' then directory ++ file else directory ++ "/" ++ file

/-- The name of a log file whose path names none. -/
def logName : String := "dwarfsrc.log"

/-- The last part, or the usual name if it is none. -/
def logFileName (p : Path) : String := (p.parts.getLast?.filter (· ≠ up)).getD logName

/-- The path to log to. A directory stands for a file in it named by the date. -/
def logPath (isDirectory : Bool) (date path : String) : String :=
  if isDirectory then join path (date ++ "-" ++ logName) else path

end Path
end DwarfUnits.Files
