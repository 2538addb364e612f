/-! Numbers in the texts of filters. -/
namespace DwarfUnits.Log

/-- Digits up to the end, of which there is one at least. -/
def isDigits (text : List Char) : Bool := !text.isEmpty && text.all Char.isDigit

/-- A number in decimal digits, which a plus sign may precede. -/
def numberOf? (text : List Char) : Option Nat :=
  let digits := match text with
    | '+' :: rest => rest
    | _ => text
  if isDigits digits then some (digits.foldl (fun n c => 10 * n + (c.toNat - '0'.toNat)) 0)
  else none

/-- What comes after a sign, if one is there. -/
def afterSign (text : List Char) : List Char :=
  match text with
  | '+' :: rest | '-' :: rest => rest
  | _ => text

/-- Digits with a point in them, before them or after them, then perhaps an exponent. -/
def isDecimal (text : List Char) : Bool :=
  let whole := text.takeWhile Char.isDigit
  let (fraction, rest) := match text.dropWhile Char.isDigit with
    | '.' :: rest => (rest.takeWhile Char.isDigit, rest.dropWhile Char.isDigit)
    | rest => ([], rest)
  (!whole.isEmpty || !fraction.isEmpty) &&
    match rest with
    | [] => true
    | 'e' :: exponent | 'E' :: exponent => isDigits (afterSign exponent)
    | _ => false

/-- A real number, or a word for what is not one. -/
def isReal (text : List Char) : Bool :=
  let text := afterSign text
  isDecimal text
    || ["inf", "infinity", "nan"].contains (String.ofList (text.map Char.toLower))

end DwarfUnits.Log
