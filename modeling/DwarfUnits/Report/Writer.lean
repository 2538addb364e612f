import DwarfUnits.Report.Document
import DwarfUnits.Report.Text

/-! Reports on their way out: pieces of text are held back until there are enough of them. -/
namespace DwarfUnits

/-- An output with a buffer before it. -/
structure Writer where
  /-- The most bytes that are held back. -/
  capacity : Nat
  /-- What has left the buffer, in order. -/
  sent : String
  held : String

namespace Writer

def empty : Writer := { capacity := 8192, sent := "", held := "" }

def flush (w : Writer) : Writer := { w with sent := w.sent ++ w.held, held := "" }

/-- Text that does not fit makes room for itself, and is not held if it never fits. -/
def write (w : Writer) (text : String) : Writer :=
  let w := if w.capacity < w.held.utf8ByteSize + text.utf8ByteSize then w.flush else w
  if w.capacity ≤ text.utf8ByteSize then { w with sent := w.sent ++ text }
  else { w with held := w.held ++ text }

def writeLines (w : Writer) (lines : List String) : Writer :=
  lines.foldl (fun w line => (w.write line).write "\n") w

def writeUnit (w : Writer) (record : UnitRecord) : Writer := w.writeLines record.lines

def writeReport (w : Writer) (report : Report) : Writer := (w.write report.json.pretty).write "\n"

/-- All that has left when the output is given up, which sends what is still held. -/
def close (w : Writer) : String := w.flush.sent

end Writer
end DwarfUnits
