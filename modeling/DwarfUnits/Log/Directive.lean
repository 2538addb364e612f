import DwarfUnits.Bytes.Text
import DwarfUnits.Log.FieldMatch
import DwarfUnits.Log.Level

/-! Filter directives: how much detail to show of which targets, in which spans. -/
namespace DwarfUnits.Log

/-- How much detail to show at most, from nothing at zero to everything at five. -/
abbrev Detail := Nat

def Detail.full : Detail := 5

/-- A detail by number, or by the name of a level in any case of letters. -/
def Detail.ofText? (text : List Char) : Option Detail :=
  match (numberOf? text).filter (· ≤ full) with
  | some n => some n
  | none =>
    match String.ofList (text.map Char.toLower) with
    | "off" => some 0
    | "error" => some Level.error.detail
    | "warn" => some Level.warn.detail
    | "info" => some Level.info.detail
    | "debug" => some Level.debug.detail
    | "trace" => some Level.trace.detail
    | _ => none

structure Directive where
  /-- What targets have to start with. -/
  target : Option String
  /-- The span that has to be entered. -/
  span : Option String
  field : Option FieldMatch
  detail : Detail
  deriving DecidableEq

namespace Directive

/-- What a target may start with. -/
def startsTarget (c : Char) : Bool := Unicode.isAlphanumeric c || c = '-' || c = ':' || c = '_'

def trim (text : List Char) : List Char :=
  ((text.dropWhile Unicode.isBlank).reverse.dropWhile Unicode.isBlank).reverse

/-- A detail after an equals sign; everything if nothing is there. -/
def detailOf? (text : List Char) : Option Detail :=
  if text.isEmpty then some .full else Detail.ofText? text

/-- A directive of one word is a detail for every target, or else a target. -/
def ofWord (word : List Char) : Directive :=
  match Detail.ofText? word with
  | some detail => { target := none, span := none, field := none, detail }
  | none => { target := some (String.ofList word), span := none, field := none, detail := .full }

def size (text : List Char) : Nat := (String.ofList text).utf8ByteSize

/-- The characters of `length` bytes from `start` on. -/
def cut (bytes : List UInt8) (start length : Nat) : List Char :=
  (Text.ofBytes ((bytes.drop start).take length)).toList

/-- The end of a directive, at `position`, where `rest` is left. -/
def finish? (bytes : List UInt8) (d : Directive) (position : Nat) (rest : List Char) :
    Option Directive :=
  match rest with
  | [] => some d
  | '=' :: _ => (detailOf? (cut bytes (position + 1) bytes.length)).map ({ d with detail := · })
  | _ => none

/-- The part from a span on, whose opening bracket stands before `position`. -/
def withSpan? (bytes : List UInt8) (target : Option String) (position : Nat) (rest : List Char) :
    Option Directive :=
  let ends (c : Char) : Bool := c = ']' || c = '\x7b'
  let length := size (rest.takeWhile (!ends ·))
  let name := String.ofList (cut bytes position length)
  match rest.dropWhile (!ends ·) with
  | ']' :: after =>
    finish? bytes { target, span := some name, field := none, detail := .full }
      (position + length + 1) after
  | '\x7b' :: inner =>
    let start := position + length + 1
    let width := size (inner.takeWhile (· ≠ '\x7d'))
    match inner.dropWhile (· ≠ '\x7d') with
    | '\x7d' :: ']' :: after =>
      if width = 0 then none
      else do
        let field ← FieldMatch.ofText? (cut bytes start width)
        finish? bytes
          { target, span := if length = 0 then none else some name, field := some field,
            detail := .full }
          (start + width + 2) after
    | _ => none
  | _ => none

/-- A directive from its text. Blanks around it do not count for the places where its parts
stand, but are not taken out of the parts either. -/
def parse? (text : List Char) : Option Directive :=
  let bytes := (String.ofList text).toUTF8.toList
  match trim text with
  | [] => none
  | '[' :: rest => withSpan? bytes none 1 rest
  | c :: rest =>
    if startsTarget c then
      let ends (c : Char) : Bool := c = '=' || c = '['
      let length := size ((c :: rest).takeWhile (!ends ·))
      let target := some (String.ofList (cut bytes 0 length))
      match (c :: rest).dropWhile (!ends ·) with
      | '[' :: after => withSpan? bytes target (length + 1) after
      | [] => some (ofWord text)
      | after => finish? bytes { target, span := none, field := none, detail := .full } length after
    else none

def isDynamic (d : Directive) : Bool := d.span.isSome || d.field.isSome

/-- Whether a directive asks for a value of a field. -/
def hasValue (d : Directive) : Bool := d.field.any (·.value.isSome)

/-- A directive that can decide on an event by itself. -/
def isStatic (d : Directive) : Bool := d.span.isNone && !d.hasValue

def matchesTarget (d : Directive) (target : String) : Bool :=
  d.target.all (fun t => t.toList.isPrefixOf target.toList)

def matchesFields (d : Directive) (names : List String) : Bool :=
  d.field.all (fun f => names.contains f.name)

/-- Whether two directives speak of the same, so that the later one counts. -/
def sameScope (a b : Directive) : Bool :=
  a.target = b.target && a.span = b.span && a.field = b.field

/-- How narrowly a directive speaks: by its target, by asking for a field, by that field. -/
def narrower (a b : Directive) : Bool :=
  let reach (d : Directive) := (d.target.getD "").utf8ByteSize
  let field (d : Directive) := (d.field.map FieldMatch.name).getD ""
  if reach a ≠ reach b then reach b < reach a
  else if a.field.isSome ≠ b.field.isSome then a.field.isSome
  else field b < field a

end Directive
end DwarfUnits.Log
