import DwarfUnits.Event
import DwarfUnits.Log.Directive

/-! Filters of diagnostics: which events are shown, and whether with their span. -/
namespace DwarfUnits.Log

/-- Directives, and the most that was ever asked for. -/
structure Filter where
  /-- No two have the same scope. -/
  directives : List Directive
  /-- The most detail of any directive, be it also one that a later one replaced. -/
  most : Detail

/-- The span around the decoding of one unit. -/
structure UnitSpan where
  offset : Nat

namespace UnitSpan

def name : String := "unit"

def fieldName : String := "offset"

def origin : Origin := .walk

def level : Level := .debug

end UnitSpan

namespace Filter

/-- Keep the last of directives with the same scope. -/
def keepLast : List Directive → List Directive
  | [] => []
  | d :: rest => if rest.any d.sameScope then keepLast rest else d :: keepLast rest

/-- Of directives with the same scope the last one counts. -/
def ofDirectives (ds : List Directive) : Filter :=
  { directives := keepLast ds, most := (ds.map Directive.detail).foldl max 0 }

/-- A filter from directives between commas; `none` if one of them is malformed. -/
def parse? (text : String) : Option Filter :=
  let pieces := (text.toList.splitOn ',').filter (!·.isEmpty)
  (pieces.mapM Directive.parse?).map ofDirectives

def upTo (level : Level) : Filter :=
  ofDirectives [{ target := none, span := none, field := none, detail := level.detail }]

/-- The filter of a level given explicitly, else of the environment; a malformed one and none
at all let warnings through. -/
def choose (level : Option Level) (environment : Option String) : Filter :=
  match level with
  | some level => upTo level
  | none => (environment.bind parse?).getD (upTo .warn)

def narrowest : List Directive → Option Directive
  | [] => none
  | d :: rest =>
    match narrowest rest with
    | some other => if d.narrower other then some d else some other
    | none => some d

/-- The detail that directives without spans allow a target. Events are also asked for fields. -/
def staticDetail (f : Filter) (target : String) (fields : Option (List String)) : Detail :=
  let fits (d : Directive) :=
    d.isStatic && d.matchesTarget target && fields.all d.matchesFields
  ((narrowest (f.directives.filter fits)).map Directive.detail).getD 0

/-- Directives that look at the span of a unit. -/
def spanDirectives (f : Filter) : List Directive :=
  f.directives.filter fun d =>
    d.isDynamic && d.matchesTarget UnitSpan.origin.target
      && d.span.all (· = UnitSpan.name) && d.matchesFields [UnitSpan.fieldName]

/-- Whether anything of a level can pass. Asking for field values keeps every span. -/
def mayPass (f : Filter) (level : Level) : Bool :=
  f.directives.any (fun d => d.isDynamic && d.hasValue)
    || level.detail ≤ f.most

def entersUnits (f : Filter) : Bool :=
  UnitSpan.level.detail ≤ f.staticDetail UnitSpan.origin.target none
    || (!f.spanDirectives.isEmpty && f.mayPass UnitSpan.level)

/-- Whether a directive asks for no value, or for the one that a unit's span has. -/
def matchesUnit (d : Directive) (unit : UnitSpan) : Bool :=
  (d.field.bind FieldMatch.value).all (· = .number unit.offset)

/-- The detail that directives with spans allow inside a unit. -/
def unitDetail (f : Filter) (unit : UnitSpan) : Detail :=
  if f.entersUnits then
    ((f.spanDirectives.filter (matchesUnit · unit)).map Directive.detail).foldl max 0
  else 0

def shows (f : Filter) (notice : Notice) : Bool :=
  let event := notice.event
  let names := "message" :: event.fields.map Prod.fst
  event.level.detail ≤ f.staticDetail event.origin.target (some names)
    || (notice.unit.map UnitSpan.mk).any (fun unit => event.level.detail ≤ f.unitDetail unit)

end Filter
end DwarfUnits.Log
