import DwarfUnits.Entry.Attributes
import DwarfUnits.Report

/-! Walks over the units of an image, one after another by their lengths. -/
namespace DwarfUnits

/-- Whether a line table with a wrong header length ends the walk. -/
inductive Strictness where
  | lenient
  | strict
  deriving DecidableEq

namespace UnitRecord

/-- The status of a supported line table; in a lenient walk a wrong length is only a warning. -/
def tableStatus (strictness : Strictness) (header : LineHeader) : Decode LineTableStatus :=
  match header.validate with
  | .ok () => return .decoded
  | .error e =>
    if e.isUnitLocal && strictness = .lenient then do
      Decode.emit (.unreliableLineTable e)
      return .headerLengthMismatch header.headerLength header.consumed
    else Decode.fail e

/-- The record of the line table at the position reached. -/
def decodeTable (strictness : Strictness) : Decode LineTableRecord := do
  match ← LineTable.decode with
  | .unsupported offset version =>
    return { offset, version, status := .unsupportedVersion, directories := [], files := [] }
  | .supported header =>
    let status ← tableStatus strictness header
    return { offset := header.offset, version := header.version, status,
             directories := header.directories, files := header.files }

/-- The attributes of a unit's root entry, of which a unit without one has none. -/
def decodeRoot (sections : Sections) (header : UnitHeader) : Decode RootAttributes := do
  if header.rootCode = 0 then
    Decode.emit .noRootEntry
    return RootAttributes.empty
  else
    let declaration ← sections.decodeAt .abbrevs header.abbrevOffset.toNat
      (Declaration.decodeRoot header)
    RootAttributes.decode header sections declaration.specs

/-- The header and the record of the unit at the position reached. -/
def decode (sections : Sections) (strictness : Strictness) : Decode (UnitHeader × UnitRecord) := do
  let header ← UnitHeader.decode
  Decode.emit (.unitHeader header.version header.abbrevOffset header.addressSize header.next)
  let root ← decodeRoot sections header
  let lineTable ← root.lineOffset.mapM fun offset =>
    sections.decodeAt .lines offset.toNat (decodeTable strictness)
  return (header, {
    offset := header.offset, version := header.version, abbrevOffset := header.abbrevOffset,
    addressSize := header.addressSize, name := root.name, compDir := root.compDir, lineTable })

end UnitRecord

structure Walker where
  sections : Sections
  strictness : Strictness
  offset : Nat
  /-- Set by the first error. -/
  finished : Bool

/-- One item of a walk: a unit or the error that ends it. -/
structure WalkStep where
  item : Except Error UnitRecord
  walker : Walker
  notices : List Notice

namespace Walker

def start (sections : Sections) (strictness : Strictness) : Walker :=
  { sections, strictness, offset := 0, finished := false }

/-- Bytes that the walk has still before it. -/
def remaining (w : Walker) : Nat := if w.finished then 0 else w.sections.info.size - w.offset

/-- What to tell of a unit that ends beyond its section. -/
def pastEnd (next sectionEnd : Nat) : List Event :=
  if sectionEnd < next then [.unitPastEnd next sectionEnd] else []

/-- Events that happened while the unit at `offset` was decoded. -/
def inUnit (offset : Nat) (events : List Event) : List Notice := events.map (⟨some offset, ·⟩)

/-- The step that a decoded unit makes. An error leaves the offset where it is. -/
def stepOf (w : Walker) (unit : Outcome (UnitHeader × UnitRecord)) : WalkStep :=
  match unit.result with
  | .ok (header, record) =>
    let after := w.offset + header.extent
    { item := .ok record
      walker := { w with offset := after }
      notices := inUnit w.offset (unit.events ++ pastEnd after w.sections.info.size) }
  | .error e =>
    { item := .error e
      walker := { w with finished := true }
      notices := inUnit w.offset unit.events }

def source (w : Walker) : Source :=
  { id := .info, order := w.sections.order, bytes := w.sections.info }

/-- The next unit, if the walk has not ended. -/
def next (w : Walker) : Option WalkStep :=
  if w.remaining = 0 then none
  else some (w.stepOf (UnitRecord.decode w.sections w.strictness w.source w.offset))

/-- A step leaves less to walk, because a unit takes at least its length field. -/
theorem remaining_stepOf {w : Walker} (unit : Outcome (UnitHeader × UnitRecord))
    (h : w.remaining ≠ 0) : (w.stepOf unit).walker.remaining < w.remaining := by
  have hw : w.finished = false := by
    cases hf : w.finished
    · rfl
    · simp [remaining, hf] at h
  unfold stepOf
  split
  · rename_i header _ _
    have := header.extent_pos
    simp only [remaining, hw, Bool.false_eq_true, if_false] at h ⊢
    omega
  · simpa [remaining] using Nat.pos_of_ne_zero h

theorem remaining_next {w : Walker} {s : WalkStep} (h : w.next = some s) :
    s.walker.remaining < w.remaining := by
  unfold next at h
  split at h
  · cases h
  · cases h
    exact remaining_stepOf _ ‹_›

/-- All steps to the end of the walk. -/
def steps (w : Walker) : List WalkStep :=
  match _h : w.next with
  | none => []
  | some s => s :: s.walker.steps
termination_by w.remaining
decreasing_by exact remaining_next _h

end Walker

/-- The units before the first error, and that error. -/
def WalkStep.split : List WalkStep → List UnitRecord × Option Error
  | [] => ([], none)
  | s :: rest =>
    match s.item with
    | .error e => ([], some e)
    | .ok record => let (records, error) := split rest; (record :: records, error)

/-- The report of a whole walk, or its error, and everything told on the way. -/
def walk (sections : Sections) (strictness : Strictness) : Except Error Report × List Notice :=
  let steps := (Walker.start sections strictness).steps
  let told := steps.flatMap WalkStep.notices
  match WalkStep.split steps with
  | (_, some e) => (.error e, told)
  | (units, none) => (.ok { units }, told ++ [⟨none, .walkFinished units.length⟩])

end DwarfUnits
