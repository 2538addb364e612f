import DwarfUnits.Bytes.Leb128
import DwarfUnits.Bytes.Order
import DwarfUnits.Event

/-! Decoders: functions from a position in a section to a value, a new position and events. -/
namespace DwarfUnits

structure Source where
  id : SectionId
  order : ByteOrder
  bytes : ByteArray

namespace Source

/-- The `n` bytes from `position`, or as many as there are. -/
def slice (src : Source) (position n : Nat) : List UInt8 :=
  (src.bytes.extract position (position + n)).data.toList

/-- The first index from `i` on whose byte satisfies `p`. -/
def indexFrom (src : Source) (p : UInt8 → Bool) (i : Nat) : Option Nat :=
  if h : i < src.bytes.size then
    if p src.bytes[i] then some i else src.indexFrom p (i + 1)
  else none
termination_by src.bytes.size - i

/-- A position to start from; it may be the end of the section but not beyond. -/
def start (src : Source) (offset : Nat) : Except Error Nat :=
  if offset ≤ src.bytes.size then .ok offset else .error (.outOfBounds src.id offset 0)

end Source

/-- What a decoder leaves behind. The position is kept when it fails. -/
structure Outcome (α : Type) where
  result : Except Error α
  position : Nat
  events : List Event

/-- Reads a value from a position in a section. -/
def Decode (α : Type) : Type := Source → Nat → Outcome α

namespace Decode

variable {α β : Type}

protected def pure (a : α) : Decode α := fun _ pos => ⟨.ok a, pos, []⟩

protected def bind (d : Decode α) (f : α → Decode β) : Decode β := fun src pos =>
  match d src pos with
  | ⟨.error e, next, events⟩ => ⟨.error e, next, events⟩
  | ⟨.ok a, next, events⟩ =>
    let rest := f a src next
    ⟨rest.result, rest.position, events ++ rest.events⟩

instance : Monad Decode where
  pure := Decode.pure
  bind := Decode.bind

def fail (e : Error) : Decode α := fun _ pos => ⟨.error e, pos, []⟩

def ofExcept (result : Except Error α) : Decode α := fun _ pos => ⟨result, pos, []⟩

def emit (event : Event) : Decode Unit := fun _ pos => ⟨.ok (), pos, [event]⟩

def position : Decode Nat := fun _ pos => ⟨.ok pos, pos, []⟩

/-- Decode at `offset` of another section; the position in this one stays. -/
def elsewhere (other : Except Error Source) (offset : Nat) (d : Decode α) : Decode α :=
  fun _ pos =>
    match other with
    | .error e => ⟨.error e, pos, []⟩
    | .ok src =>
      match src.start offset with
      | .error e => ⟨.error e, pos, []⟩
      | .ok start =>
        let inner := d src start
        ⟨inner.result, pos, inner.events⟩

/-- Move to `target`, at most the end of the section. -/
def seek (target : Nat) : Decode Unit := fun src pos =>
  match src.start target with
  | .ok next => ⟨.ok (), next, []⟩
  | .error e => ⟨.error e, pos, []⟩

def take (n : Nat) : Decode (List UInt8) := fun src pos =>
  if pos + n ≤ src.bytes.size then ⟨.ok (src.slice pos n), pos + n, []⟩
  else ⟨.error (.outOfBounds src.id pos n), pos, []⟩

def skip (n : Nat) : Decode Unit := fun src pos =>
  if pos + n ≤ src.bytes.size then ⟨.ok (), pos + n, []⟩
  else ⟨.error (.outOfBounds src.id pos n), pos, []⟩

/-- The bytes up to and including the first that satisfies `p`.
Without one, at least one byte more than there are would be needed. -/
def takeThrough (p : UInt8 → Bool) : Decode (List UInt8) := fun src pos =>
  match src.indexFrom p pos with
  | some i => ⟨.ok (src.slice pos (i + 1 - pos)), i + 1, []⟩
  | none => ⟨.error (.outOfBounds src.id pos (src.bytes.size - pos + 1)), pos, []⟩

def word (n : Nat) : Decode Nat := fun src pos =>
  (src.order.value <$> take n : Decode Nat) src pos

def u8 : Decode UInt8 := UInt8.ofNat <$> word 1

def i8 : Decode Int8 := UInt8.toInt8 <$> u8

def u16 : Decode UInt16 := UInt16.ofNat <$> word 2

def u32 : Decode UInt32 := UInt32.ofNat <$> word 4

def u64 : Decode UInt64 := UInt64.ofNat <$> word 8

def uleb128 : Decode UInt64 := Leb128.unsigned <$> takeThrough Leb128.isLast

def sleb128 : Decode Int64 := Leb128.signed <$> takeThrough Leb128.isLast

/-- Bytes up to a zero byte, which is passed and left out. -/
def cstring : Decode (List UInt8) := List.dropLast <$> takeThrough (· == 0)

/-- Items of `step` until it yields none. A step that does not advance ends the list. -/
def collect (step : Decode (Option α)) : Decode (List α) := fun src pos =>
  match step src pos with
  | ⟨.error e, next, events⟩ => ⟨.error e, next, events⟩
  | ⟨.ok none, next, events⟩ => ⟨.ok [], next, events⟩
  | ⟨.ok (some a), next, events⟩ =>
    if pos < next ∧ next ≤ src.bytes.size then
      let rest := collect step src next
      ⟨(a :: ·) <$> rest.result, rest.position, events ++ rest.events⟩
    else ⟨.ok [a], next, events⟩
termination_by src pos => src.bytes.size - pos
decreasing_by omega

end Decode
end DwarfUnits
