/-! Text from UTF-8 bytes, where each maximal invalid subpart becomes one replacement character. -/
namespace DwarfUnits.Text

/-- Stands for bytes that are not text. -/
def replacement : Char := '\uFFFD'

structure Range where
  low : UInt8
  high : UInt8

def Range.contains (r : Range) (b : UInt8) : Bool := r.low ≤ b && b ≤ r.high

/-- What an unrestricted continuation byte may be. -/
def Range.tail : Range := ⟨0x80, 0xBF⟩

/-- The bits a leading byte gives, and the ranges its continuation bytes must lie in. -/
structure Pending where
  bits : Nat
  expected : List Range

/-- The first byte of a character; `none` for a byte that starts none.
The ranges exclude overlong forms, surrogates and values above `0x10FFFF`. -/
def leading (b : UInt8) : Option Pending :=
  if b < 0x80 then some ⟨b.toNat, []⟩
  else if b < 0xC2 then none
  else if b < 0xE0 then some ⟨b.toNat - 0xC0, [.tail]⟩
  else if b = 0xE0 then some ⟨0, [⟨0xA0, 0xBF⟩, .tail]⟩
  else if b = 0xED then some ⟨0xD, [⟨0x80, 0x9F⟩, .tail]⟩
  else if b < 0xF0 then some ⟨b.toNat - 0xE0, [.tail, .tail]⟩
  else if b = 0xF0 then some ⟨0, [⟨0x90, 0xBF⟩, .tail, .tail]⟩
  else if b < 0xF4 then some ⟨b.toNat - 0xF0, [.tail, .tail, .tail]⟩
  else if b = 0xF4 then some ⟨4, [⟨0x80, 0x8F⟩, .tail, .tail]⟩
  else none

/-- Characters completed by a byte that stands first, and what it leaves open. -/
def start (b : UInt8) : List Char × Option Pending :=
  match leading b with
  | none => ([replacement], none)
  | some ⟨bits, []⟩ => ([Char.ofNat bits], none)
  | some pending => ([], some pending)

/-- Characters completed by the next byte after `pending`, and what is open then. -/
def step : Option Pending → UInt8 → List Char × Option Pending
  | some ⟨bits, r :: more⟩, b =>
    if r.contains b then
      let bits := 64 * bits + (b.toNat - 0x80)
      if more.isEmpty then ([Char.ofNat bits], none) else ([], some ⟨bits, more⟩)
    else (replacement :: (start b).1, (start b).2)
  | _, b => start b

/-- Characters of the bytes after `pending`; an open character at the end is invalid. -/
def charsFrom : Option Pending → List UInt8 → List Char
  | none, [] => []
  | some _, [] => [replacement]
  | pending, b :: rest => (step pending b).1 ++ charsFrom (step pending b).2 rest

/-- Bytes as text; well-formed UTF-8 is kept as it is. -/
def ofBytes (bytes : List UInt8) : String := String.ofList (charsFrom none bytes)

/-- Bytes as text, only if they are well-formed UTF-8. -/
def ofBytes? (bytes : List UInt8) : Option String :=
  let data := bytes.toByteArray
  if h : data.IsValidUTF8 then some (String.fromUTF8 data h) else none

end DwarfUnits.Text
