import DwarfUnits.Files.Fault
import DwarfUnits.Files.Path

/-! A tree of files as a value: what reading a path and opening a log file come to. -/
namespace DwarfUnits.Files

inductive Node where
  | directory
  | file (bytes : ByteArray)

structure Tree where
  /-- Places that hold something; the root is always a directory. -/
  nodes : List (Place × Node)
  workingDirectory : Place

namespace Tree

def node? (t : Tree) (place : Place) : Option Node :=
  if place.isEmpty then some .directory else (t.nodes.find? (·.1 = place)).map (·.2)

/-- Put something at a place that holds nothing. -/
def add (t : Tree) (place : Place) (node : Node) : Tree :=
  { t with nodes := (place, node) :: t.nodes }

def start (t : Tree) (path : Path) : Place :=
  if path.isAbsolute then [] else t.workingDirectory

/-- The place that a part of a path means at a place, be it that nothing is there. -/
def locate (t : Tree) (place : Place) (part : String) : Except Fault Place :=
  match t.node? place with
  | some .directory =>
    if part = Path.up then .ok place.dropLast
    else if Path.maxPart < part.utf8ByteSize then .error .nameTooLong
    else .ok (place ++ [part])
  | some (.file _) => .error .notADirectory
  | none => .error .notFound

/-- The place that parts of a path lead to, where something is. -/
def follow (t : Tree) (place : Place) : List String → Except Fault Place
  | [] => .ok place
  | part :: rest => do
    let next ← t.locate place part
    if (t.node? next).isSome then t.follow next rest else .error .notFound

def find (t : Tree) (path : Path) : Except Fault Node := do
  if path.size = 0 then .error .notFound
  else if Path.maxSize < path.size then .error .nameTooLong
  else
    match t.node? (← t.follow (t.start path) path.parts) with
    | some .directory => return .directory
    | some (.file bytes) =>
      if path.asksDirectory then .error .notADirectory else return .file bytes
    | none => .error .notFound

def read (t : Tree) (path : Path) : Except Fault ByteArray := do
  match ← t.find path with
  | .file bytes => return bytes
  | .directory => .error .isADirectory

def isDirectory (t : Tree) (path : Path) : Bool :=
  match t.find path with
  | .ok .directory => true
  | _ => false

def makeDirectory (t : Tree) (start : Place) (parts : List String) : Except Fault Tree := do
  match parts.getLast? with
  | none => .error .alreadyExists
  | some name =>
    let place ← t.locate (← t.follow start parts.dropLast) name
    if (t.node? place).isSome then .error .alreadyExists else return t.add place .directory

/-- Make one directory, content with one that is there already. -/
def ensureDirectory (t : Tree) (start : Place) (parts : List String) : Except Fault Tree :=
  match t.makeDirectory start parts with
  | .ok made => .ok made
  | .error fault =>
    match (t.follow start parts).toOption.bind t.node? with
    | some .directory => .ok t
    | _ => .error fault

/-- Make a directory and those above it, given the parts of its path from the last one up. -/
def makeDirectories (t : Tree) (start : Place) : List String → Except Fault Tree
  | [] => .ok t
  | last :: above =>
    let parts := (last :: above).reverse
    match t.makeDirectory start parts with
    | .error .notFound => do
      let made ← t.makeDirectories start above
      made.ensureDirectory start parts
    | _ => t.ensureDirectory start parts

/-- The text of the path to log to. -/
def logPath (t : Tree) (date path : String) : String :=
  Path.logPath (t.isDirectory (Path.ofText path)) date path

/-- Open a file to add to it, and make it if it is not there. -/
def openFile (t : Tree) (place : Place) : Except Fault Tree :=
  match t.node? place with
  | some .directory => .error .isADirectory
  | some (.file _) => .ok t
  | none => .ok (t.add place (.file .empty))

/-- Open a log file after the directories above it are made. -/
def openLog (t : Tree) (path : String) : Except Fault (Tree × Place) := do
  let path := Path.ofText path
  if Path.maxSize < path.size then .error .nameTooLong
  else
    let start := t.start path
    let above := path.parts.dropLast
    let made ← t.makeDirectories start above.reverse
    let place ← made.locate (← made.follow start above) path.logFileName
    return (← made.openFile place, place)

end Tree
end DwarfUnits.Files
