import DwarfUnits.LineTable
import DwarfUnits.Proofs.Bytes.Shifts
import DwarfUnits.Proofs.Grammar.Basic

/-! Readers in the arithmetic of the machine, where a sum, a shift or a slice that is out of range
is a fault; and that they are the decoders, without a fault. -/
namespace DwarfUnits

variable {α β : Type}

namespace Machine

/-- A sum of sizes or positions, words of 64 bits. -/
def add? (m n : ℕ) : Option ℕ := if m + n < 2 ^ 64 then some (m + n) else none

def sub? (m n : ℕ) : Option ℕ := if n ≤ m then some (m - n) else none

def shiftLeft? (bits : UInt64) (shift : ℕ) : Option UInt64 :=
  if shift < 64 then some (bits <<< UInt64.ofNat shift) else none

def slice? (src : Source) (start stop : ℕ) : Option (List UInt8) :=
  if start ≤ stop ∧ stop ≤ src.bytes.size then some (src.slice start (stop - start)) else none

def take? (n : ℕ) (run : List UInt8) : Option (List UInt8) :=
  if n ≤ run.length then some (run.take n) else none

def remaining? (src : Source) (position : ℕ) : Option ℕ := sub? src.bytes.size position

/-- Reads from a position in a section. Nothing is a fault; an error is not. -/
def Reader (α : Type) : Type := Source → ℕ → Option (Except Error α × ℕ)

namespace Reader

def map (f : α → β) (r : Reader α) : Reader β := fun src position =>
  (r src position).map fun (result, next) => (f <$> result, next)

def bind (r : Reader α) (f : α → Reader β) : Reader β := fun src position =>
  match r src position with
  | none => none
  | some (.error e, next) => some (.error e, next)
  | some (.ok a, next) => f a src next

def pure (a : α) : Reader α := fun _ position => some (.ok a, position)

def seek (target : ℕ) : Reader Unit := fun src position =>
  if target ≤ src.bytes.size then some (.ok (), target)
  else some (.error (.outOfBounds src.id target 0), position)

/-- An end that is no word lies past the section like any other; that is not a fault. -/
def bytes (n : ℕ) : Reader (List UInt8) := fun src position =>
  match (add? position n).filter (· ≤ src.bytes.size) with
  | some stop => (slice? src position stop).map fun run => (.ok run, stop)
  | none => some (.error (.outOfBounds src.id position n), position)

def skip (n : ℕ) : Reader Unit := (bytes n).map fun _ => ()

def word (n : ℕ) : Reader ℕ := fun src => (bytes n).map src.order.value src

def u8 : Reader UInt8 := (word 1).map UInt8.ofNat

def i8 : Reader Int8 := u8.map UInt8.toInt8

def u16 : Reader UInt16 := (word 2).map UInt16.ofNat

def u32 : Reader UInt32 := (word 4).map UInt32.ofNat

def u64 : Reader UInt64 := (word 8).map UInt64.ofNat

/-- The shift after so many digits; it is counted in 32 bits and stops at the last of them. -/
def shiftAfter (digits : ℕ) : ℕ := min (7 * digits) (2 ^ 32 - 1)

/-- The digit of a byte put on top of `bits`; none of it is left past the word. -/
def gather (bits : UInt64) (shift : ℕ) (b : UInt8) : Option UInt64 :=
  if shift < 64 then (bits ||| ·) <$> shiftLeft? (b &&& 0x7f).toUInt64 shift else some bits

/-- Bytes from `position` on are gathered up to the first without its high bit; `finish` makes the
value of the bits, from the shift of that byte and the byte. -/
def lebFrom (finish : UInt64 → ℕ → UInt8 → Option α) (start position : ℕ) (bits : UInt64)
    (shift : ℕ) (src : Source) : Option (Except Error α × ℕ) :=
  if hpos : position < src.bytes.size then
    match hnext : add? position 1, gather bits shift src.bytes[position] with
    | some next, some bits =>
      if src.bytes[position] &&& 0x80 = 0 then
        (finish bits shift src.bytes[position]).map fun a => (.ok a, next)
      else lebFrom finish start next bits (min (shift + 7) (2 ^ 32 - 1)) src
    | _, _ => none
  else do
    let passed ← sub? position start
    let needed ← add? passed 1
    return (.error (.outOfBounds src.id start needed), start)
termination_by src.bytes.size - position
decreasing_by
  unfold add? at hnext
  split at hnext
  · obtain rfl := Option.some.inj hnext
    omega
  · cases hnext

def leb (finish : UInt64 → ℕ → UInt8 → Option α) : Reader α := fun src position =>
  lebFrom finish position position 0 0 src

def uleb128 : Reader UInt64 := leb fun bits _ _ => some bits

/-- Ones are put above the last digit of a negative number, as far as the word goes. -/
def sleb128 : Reader Int64 := leb fun bits shift b =>
  let above := min (shift + 7) (2 ^ 32 - 1)
  UInt64.toInt64 <$>
    if above < 64 ∧ b &&& 0x40 ≠ 0 then (bits ||| ·) <$> shiftLeft? (-1) above else some bits

def cstring : Reader (List UInt8) := fun src position => do
  let rest ← slice? src position src.bytes.size
  match rest.findIdx? (· == 0) with
  | some length =>
    let text ← take? length rest
    let taken ← add? length 1
    let next ← add? position taken
    return (.ok text, next)
  | none =>
    let needed ← add? rest.length 1
    return (.error (.outOfBounds src.id position needed), position)

def offset : Format → Reader UInt64
  | .dwarf32 => u32.map UInt32.toUInt64
  | .dwarf64 => u64

def initialLength : Reader (UInt64 × Format) :=
  u32.bind fun first =>
    if first = Format.escape then u64.map fun length => (length, .dwarf64)
    else pure (first.toUInt64, .dwarf32)

/-- From `pos` the reader does what the decoder does, and comes to no fault. -/
def Agrees (r : Reader α) (d : Decode α) (src : Source) (pos : ℕ) : Prop :=
  r src pos = some ((d src pos).result, (d src pos).position)

variable {r : Reader α} {d : Decode α} {src : Source} {pos : ℕ}

theorem Agrees.map {f : α → β} (h : r.Agrees d src pos) : (r.map f).Agrees (f <$> d) src pos := by
  unfold Agrees Reader.map at *
  rw [h, Decode.map_result, Decode.map_position, Option.map_some]

theorem Agrees.bind {r' : α → Reader β} {f : α → Decode β} (h : r.Agrees d src pos)
    (h' : ∀ a, (r' a).Agrees (f a) src (d src pos).position) :
    (r.bind r').Agrees (d >>= f) src pos := by
  unfold Agrees Reader.bind at *
  rw [h]
  cases hd : (d src pos).result with
  | ok a =>
    rw [Decode.bind_ok hd]
    exact h' a
  | error e => rw [Decode.bind_error hd]

theorem shiftAfter_succ (digits : ℕ) :
    min (shiftAfter digits + 7) (2 ^ 32 - 1) = shiftAfter (digits + 1) := by
  unfold shiftAfter
  omega

/-- What is gathered byte by byte is the value of the bytes. -/
theorem gather_fold (done : List UInt8) (b : UInt8) :
    gather (Leb128.fold 0 done) (shiftAfter done.length) b = some (Leb128.fold 0 (done ++ [b])) := by
  have hzero : (b &&& 0x7f).toUInt64 + 128 * 0 = (b &&& 0x7f).toUInt64 := by
    rw [UInt64.mul_zero, UInt64.add_zero]
  rw [Leb128.fold_concat, hzero]
  unfold gather shiftAfter
  by_cases h : 7 * done.length < 64
  · have hshift : min (7 * done.length) (2 ^ 32 - 1) = 7 * done.length := by omega
    rw [hshift, if_pos h, shiftLeft?, if_pos h, Leb128.fold_eq_or (b &&& 0x7f).toUInt64 h]
    rfl
  · rw [if_neg (by omega), Leb128.fold_eq_of_le (b &&& 0x7f).toUInt64 (by omega)]

theorem seek_agrees {target : ℕ} : (seek target).Agrees (Decode.seek target) src pos := by
  unfold Agrees seek Decode.seek Source.start
  split <;> rfl

/-- A text ends at the first zero byte, whatever comes after it. -/
theorem exists_text_of_findIdx? {run : List UInt8} {length : ℕ}
    (h : run.findIdx? (· == 0) = some length) :
    ∃ text after, run = (text ++ [0]) ++ after ∧ 0 ∉ text ∧ text.length = length := by
  obtain ⟨hlt, hzero, hbefore⟩ := List.findIdx?_eq_some_iff_getElem.mp h
  refine ⟨run.take length, run.drop (length + 1), ?_, fun hmem => ?_, ?_⟩
  · rw [List.append_assoc, List.singleton_append, ← beq_iff_eq.mp hzero,
      ← List.drop_eq_getElem_cons hlt, List.take_append_drop]
  · obtain ⟨j, hj, hget⟩ := List.getElem_of_mem hmem
    rw [List.length_take] at hj
    rw [List.getElem_take] at hget
    exact hbefore j (by omega) (by rw [hget]; rfl)
  · rw [List.length_take, Nat.min_eq_left hlt.le]

section

variable (hsize : src.bytes.size < 2 ^ 63)
include hsize

theorem bytes_agrees {n : ℕ} : (bytes n).Agrees (Decode.take n) src pos := by
  unfold Agrees bytes Decode.take
  by_cases hn : pos + n ≤ src.bytes.size
  · have hstop : add? pos n = some (pos + n) := if_pos (by omega)
    have hslice : slice? src pos (pos + n) = some (src.slice pos n) := by
      rw [slice?, if_pos ⟨Nat.le_add_right .., hn⟩, Nat.add_sub_cancel_left]
    rw [if_pos hn, hstop, Option.filter_some, if_pos (decide_eq_true hn)]
    simp only [hslice, Option.map_some]
  · have hstop : (add? pos n).filter (· ≤ src.bytes.size) = none := by
      unfold add?
      split
      · rw [Option.filter_some, if_neg (by simpa using hn)]
      · rfl
    rw [if_neg hn, hstop]

theorem skip_agrees {n : ℕ} : (skip n).Agrees (Decode.skip n) src pos := by
  rw [Decode.skip_eq_map]
  exact (bytes_agrees hsize).map

theorem word_agrees {n : ℕ} : (word n).Agrees (Decode.word n) src pos := (bytes_agrees hsize).map

theorem u8_agrees : u8.Agrees Decode.u8 src pos := (word_agrees hsize).map

theorem i8_agrees : i8.Agrees Decode.i8 src pos := (u8_agrees hsize).map

theorem u16_agrees : u16.Agrees Decode.u16 src pos := (word_agrees hsize).map

theorem u32_agrees : u32.Agrees Decode.u32 src pos := (word_agrees hsize).map

theorem u64_agrees : u64.Agrees Decode.u64 src pos := (word_agrees hsize).map

theorem initialLength_agrees : initialLength.Agrees Decode.initialLength src pos := by
  refine (u32_agrees hsize).bind fun first => ?_
  split
  · exact (u64_agrees hsize).map
  · rfl

theorem offset_agrees (format : Format) :
    (offset format).Agrees (Decode.offset format) src pos := by
  cases format with
  | dwarf32 =>
    have hword : (u32.map UInt32.toUInt64).Agrees (UInt32.toUInt64 <$> Decode.u32) src pos :=
      (u32_agrees hsize).map
    unfold Agrees at hword ⊢
    change u32.map UInt32.toUInt64 src pos = _
    rw [hword, Decode.offset, Decode.u32]
    have hfour : Format.dwarf32.offsetSize = 4 := rfl
    simp only [Decode.map_result, Decode.map_position, hfour]
    cases hvalue : (Decode.word 4 src pos).result with
    | ok n =>
      obtain ⟨_, _, _, hn, _⟩ := (Decode.word_follows 4).of_ok hvalue
      have hwidened : (UInt32.ofNat n).toUInt64 = UInt64.ofNat n := UInt32.toUInt64_ofNat' hn
      change some (Except.ok (UInt32.ofNat n).toUInt64, _) = _
      rw [hwidened]
      rfl
    | error e => rfl
  | dwarf64 => exact u64_agrees hsize

/-- The whole rest of the section is searched for the end of a text. -/
theorem cstring_agrees (hpos : pos ≤ src.bytes.size) :
    cstring.Agrees Decode.cstring src pos := by
  have hslice : slice? src pos src.bytes.size = some (src.slice pos (src.bytes.size - pos)) :=
    if_pos ⟨hpos, Nat.le_refl _⟩
  obtain ⟨hholds, hlength⟩ :
      src.Holds pos (src.slice pos (src.bytes.size - pos)) ∧ _ := Source.holds_slice (by omega)
  unfold Agrees cstring
  rw [hslice]
  generalize src.slice pos (src.bytes.size - pos) = rest at hholds hlength
  change (match rest.findIdx? (· == 0) with | some _ => _ | none => _) = _
  cases hfound : rest.findIdx? (· == 0) with
  | some length =>
    obtain ⟨text, after, rfl, htext, rfl⟩ := exists_text_of_findIdx? hfound
    obtain ⟨hresult, hnext⟩ := Decode.cstring_reads htext hholds.left
    have hinside : pos + (text ++ [0]).length ≤ src.bytes.size := hholds.left.le_size
    have hlen : (text ++ [0]).length = text.length + 1 := List.length_append
    have htake : take? text.length (text ++ [0] ++ after) = some text := by
      rw [take?, if_pos (by simp), List.append_assoc, List.take_left]
    have htaken : add? text.length 1 = some (text.length + 1) := if_pos (by omega)
    have hend : add? pos (text.length + 1) = some (pos + (text.length + 1)) := if_pos (by omega)
    rw [hresult, hnext, hlen]
    simp only [htake, htaken, hend, Option.bind_eq_bind, Option.bind_some]
    rfl
  | none =>
    have hrest : ∀ b ∈ rest, (b == 0) = false := List.findIdx?_eq_none_iff.mp hfound
    have hindex : src.indexFrom (· == 0) pos = none :=
      Source.Holds.indexFrom_eq_none hrest hholds (by omega)
    have hneeded : add? rest.length 1 = some (rest.length + 1) := if_pos (by omega)
    simp only [hneeded, Option.bind_eq_bind, Option.bind_some]
    rw [Decode.cstring, Decode.map_result, Decode.map_position, Decode.takeThrough, hindex, hlength]
    rfl

/-- One byte more: it is gathered on top of the bytes `done`, and ends the number or does not. -/
theorem lebFrom_of_lt {finish : UInt64 → ℕ → UInt8 → Option α} {done : List UInt8}
    (h : pos + done.length < src.bytes.size) :
    lebFrom finish pos (pos + done.length) (Leb128.fold 0 done) (shiftAfter done.length) src =
      if src.bytes[pos + done.length] &&& 0x80 = 0 then
        (finish (Leb128.fold 0 (done ++ [src.bytes[pos + done.length]])) (shiftAfter done.length)
          src.bytes[pos + done.length]).map fun a => (.ok a, pos + done.length + 1)
      else lebFrom finish pos (pos + done.length + 1)
        (Leb128.fold 0 (done ++ [src.bytes[pos + done.length]])) (shiftAfter (done.length + 1))
        src := by
  have hadd : add? (pos + done.length) 1 = some (pos + done.length + 1) := if_pos (by omega)
  rw [lebFrom, dif_pos h]
  split
  · rename_i next bits hnext hbits
    obtain rfl := Option.some.inj (hadd.symm.trans hnext)
    obtain rfl := Option.some.inj ((gather_fold ..).symm.trans hbits)
    rw [shiftAfter_succ]
  · rename_i hfault
    exact absurd (gather_fold ..) (hfault _ _ hadd)

/-- No byte is left, and none was the last of a number. -/
theorem lebFrom_of_le {finish : UInt64 → ℕ → UInt8 → Option α} {done : List UInt8}
    (h : src.bytes.size ≤ pos + done.length) (hinside : pos + done.length ≤ src.bytes.size)
    (bits : UInt64) (shift : ℕ) :
    lebFrom finish pos (pos + done.length) bits shift src =
      some (.error (.outOfBounds src.id pos (src.bytes.size - pos + 1)), pos) := by
  have hpassed : sub? (pos + done.length) pos = some done.length := by
    rw [sub?, if_pos (Nat.le_add_right ..), Nat.add_sub_cancel_left]
  have hneeded : add? done.length 1 = some (done.length + 1) := if_pos (by omega)
  have hrest : src.bytes.size - pos = done.length := by omega
  rw [lebFrom, dif_neg (Nat.not_lt.mpr h), hrest]
  simp only [hpassed, hneeded, Option.bind_eq_bind, Option.bind_some]
  rfl

/-- The bytes `done` are behind, without the last one among them; what is gathered is their value. -/
theorem lebFrom_agrees {finish : UInt64 → ℕ → UInt8 → Option α} {value : List UInt8 → α}
    (hfinish : ∀ done b, finish (Leb128.fold 0 (done ++ [b])) (shiftAfter done.length) b =
      some (value (done ++ [b])))
    {done : List UInt8} (hholds : src.Holds pos done) (hdone : ∀ b ∈ done, Leb128.isLast b = false) :
    lebFrom finish pos (pos + done.length) (Leb128.fold 0 done) (shiftAfter done.length) src =
      some (((value <$> Decode.takeThrough Leb128.isLast) src pos).result,
        ((value <$> Decode.takeThrough Leb128.isLast) src pos).position) := by
  have hinside := hholds.le_size
  -- Each byte that is passed leaves less of the section.
  induction hn : src.bytes.size - (pos + done.length) using Nat.strongRecOn generalizing done with
  | ind n ih =>
    by_cases hmore : pos + done.length < src.bytes.size
    · have hall := hholds.append (Source.holds_getElem hmore)
      rw [lebFrom_of_lt hsize hmore]
      generalize src.bytes[pos + done.length] = b at hall
      have hlength : (done ++ [b]).length = done.length + 1 := List.length_append
      by_cases hlast : Leb128.isLast b
      · have hread : (value <$> Decode.takeThrough Leb128.isLast).Reads src pos (done ++ [b])
            (value (done ++ [b])) := (Decode.takeThrough_reads hdone hlast).map rfl
        obtain ⟨hresult, hend⟩ := hread hall
        rw [if_pos (Leb128.isLast_iff.mp hlast), hfinish, hresult, hend, hlength]
        rfl
      · have hmoved : ∀ b' ∈ done ++ [b], Leb128.isLast b' = false := by
          rw [List.forall_mem_append, List.forall_mem_singleton]
          exact ⟨hdone, Bool.eq_false_iff.mpr hlast⟩
        have hrest := ih (src.bytes.size - (pos + (done ++ [b]).length))
          (by rw [hlength]; omega) hall hmoved hall.le_size rfl
        rw [if_neg (mt Leb128.isLast_iff.mpr hlast), ← hrest, hlength, Nat.add_assoc]
    · have hindex : src.indexFrom Leb128.isLast pos = none :=
        Source.Holds.indexFrom_eq_none hdone hholds (by omega)
      rw [lebFrom_of_le hsize (Nat.le_of_not_lt hmore) hinside, Decode.map_result,
        Decode.map_position, Decode.takeThrough, hindex]
      rfl

theorem uleb128_agrees (hpos : pos ≤ src.bytes.size) :
    uleb128.Agrees Decode.uleb128 src pos :=
  lebFrom_agrees hsize (fun _ _ => rfl) (Source.holds_nil hpos) (by simp)

theorem sleb128_agrees (hpos : pos ≤ src.bytes.size) :
    sleb128.Agrees Decode.sleb128 src pos := by
  refine lebFrom_agrees hsize (fun done b => ?_) (Source.holds_nil hpos) (by simp)
  have hsign : Leb128.isNegative (done ++ [b]) = decide (b &&& 0x40 ≠ 0) := by
    simp [Leb128.isNegative]
  have hlength : (done ++ [b]).length = done.length + 1 := by simp
  have hshift := shiftAfter_succ done.length
  dsimp only
  rw [hshift, ← hlength, Leb128.signed, hsign]
  by_cases hnegative : b &&& 0x40 = 0
  · rw [if_neg (fun h => h.2 hnegative), if_neg (by simpa using hnegative)]
    rfl
  rw [if_pos (decide_eq_true hnegative)]
  by_cases h : 7 * (done ++ [b]).length < 64
  · have hlow : shiftAfter (done ++ [b]).length = 7 * (done ++ [b]).length := by
      unfold shiftAfter
      omega
    rw [hlow, if_pos ⟨h, hnegative⟩, shiftLeft?, if_pos h, Leb128.fold_eq_or (-1) h]
    rfl
  · have hhigh : ¬shiftAfter (done ++ [b]).length < 64 := by
      unfold shiftAfter
      omega
    rw [if_neg (fun hand => hhigh hand.1), Leb128.fold_eq_of_le (-1) (by omega)]
    rfl

end

end Reader
end Machine
end DwarfUnits
