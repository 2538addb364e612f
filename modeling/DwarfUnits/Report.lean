import DwarfUnits.LineTable

/-! What a walk reports of each unit. -/
namespace DwarfUnits

/-- How far a line table can be trusted. -/
inductive LineTableStatus where
  | decoded
  /-- The version has no layout that is known, so the lists are empty. -/
  | unsupportedVersion
  /-- The tables do not end where the header declares; the lists are kept for diagnosis. -/
  | headerLengthMismatch (declared : UInt64) (consumed : Nat)
  deriving DecidableEq

/-- Whether the lists can be relied on. -/
def LineTableStatus.isReliable : LineTableStatus → Bool
  | .decoded => true
  | _ => false

/-- The tables of a unit's line table header. -/
structure LineTableRecord where
  offset : Nat
  version : UInt16
  status : LineTableStatus
  directories : List String
  files : List FileEntry
  deriving DecidableEq

structure UnitRecord where
  offset : Nat
  version : UInt16
  abbrevOffset : UInt64
  addressSize : UInt8
  name : Option String
  compDir : Option String
  lineTable : Option LineTableRecord
  deriving DecidableEq

/-- Every unit in order of offset. -/
structure Report where
  units : List UnitRecord
  deriving DecidableEq

def Report.isEmpty (r : Report) : Bool := r.units.isEmpty

end DwarfUnits
