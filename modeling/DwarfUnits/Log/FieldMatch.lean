import DwarfUnits.Log.Number
import DwarfUnits.Pattern.Group

/-! Fields that a filter asks for. -/
namespace DwarfUnits.Log

/-- A value that a field is asked to have. -/
inductive ValueMatch where
  | number (n : Nat)
  /-- A real number or a pattern, which no number of 64 bits is equal to. -/
  | other (text : String)
  deriving DecidableEq

/-- Numbers are equal however they are written. A text that is no number has to be a pattern. -/
def ValueMatch.ofText? (text : List Char) : Option ValueMatch :=
  match (numberOf? text).filter (· < UInt64.size) with
  | some n => some (number n)
  | none =>
    if isReal text || Pattern.isValid text then some (other (String.ofList text)) else none

/-- A field that has to be there, perhaps with a certain value. -/
structure FieldMatch where
  name : String
  value : Option ValueMatch
  deriving DecidableEq

/-- Name and value of a field stand around the first equals sign; a second one ends the value. -/
def FieldMatch.ofText? (text : List Char) : Option FieldMatch :=
  match text.splitOn '=' with
  | [] => some ⟨"", none⟩
  | [name] => some ⟨String.ofList name, none⟩
  | name :: value :: _ =>
    (ValueMatch.ofText? value).map (fun value => ⟨String.ofList name, some value⟩)

end DwarfUnits.Log
