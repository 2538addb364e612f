import DwarfUnits.Bytes.Leb128
import Mathlib.Data.Nat.Digits.Defs

/-! Every LEB128 encoding of a number, the shortest and the padded ones. -/
namespace DwarfUnits

/-- The digits of a LEB128 number, least first. -/
structure Leb where
  lower : List (Fin 128)
  last : Fin 128

namespace Leb

/-- A digit before another one has the high bit set. -/
def lowerByte (d : Fin 128) : UInt8 := UInt8.ofNat (d.val + 128)

def lastByte (d : Fin 128) : UInt8 := UInt8.ofNat d.val

def bytes (l : Leb) : List UInt8 := l.lower.map lowerByte ++ [lastByte l.last]

/-- The number modulo `2 ^ 64`. -/
def value (l : Leb) : UInt64 :=
  UInt64.ofNat (Nat.ofDigits 128 ((l.lower ++ [l.last]).map Fin.val))

theorem bytes_ne_nil (l : Leb) : l.bytes ≠ [] := by simp [bytes]

theorem isLast_lowerByte : ∀ d, Leb128.isLast (lowerByte d) = false := by decide

theorem isLast_lastByte : ∀ d, Leb128.isLast (lastByte d) = true := by decide

theorem digit_lowerByte : ∀ d, (lowerByte d &&& 0x7f).toUInt64 = UInt64.ofNat d.val := by decide

theorem digit_lastByte : ∀ d, (lastByte d &&& 0x7f).toUInt64 = UInt64.ofNat d.val := by decide

theorem unsigned_bytes (l : Leb) : Leb128.unsigned l.bytes = l.value := by
  obtain ⟨lower, last⟩ := l
  unfold Leb128.unsigned Leb128.fold bytes value
  -- The last digit is the innermost summand, so the induction is on those below it.
  induction lower with
  | nil =>
    simp only [List.map_nil, List.nil_append, List.foldr_cons, List.foldr_nil, List.map_cons,
      digit_lastByte, Nat.ofDigits_singleton]
    simp
  | cons d lower ih =>
    simp only [List.map_cons, List.cons_append, List.foldr_cons, Nat.ofDigits_cons] at ih ⊢
    rw [ih, digit_lowerByte, UInt64.ofNat_add, UInt64.ofNat_mul]
    rfl

/-- A byte of either kind is that of a digit. -/
theorem exists_lowerByte {b : UInt8} (h : Leb128.isLast b = false) : ∃ d, lowerByte d = b := by
  have hb := b.toNat_lt
  have hhigh : 128 ≤ b.toNat := by simpa [Leb128.isLast, UInt8.le_iff_toNat_le] using h
  refine ⟨⟨b.toNat - 128, by omega⟩, ?_⟩
  rw [lowerByte, Nat.sub_add_cancel hhigh, UInt8.ofNat_toNat]

theorem exists_lastByte {b : UInt8} (h : Leb128.isLast b = true) : ∃ d, lastByte d = b := by
  have hlow : b.toNat < 128 := by simpa [Leb128.isLast, UInt8.lt_iff_toNat_lt] using h
  exact ⟨⟨b.toNat, hlow⟩, UInt8.ofNat_toNat⟩

/-- Bytes up to the first with its high bit clear are an encoding. -/
theorem exists_bytes {body : List UInt8} {last : UInt8}
    (hbody : ∀ b ∈ body, Leb128.isLast b = false) (hlast : Leb128.isLast last = true) :
    ∃ l : Leb, l.bytes = body ++ [last] := by
  obtain ⟨digit, rfl⟩ := exists_lastByte hlast
  have hlower : ∃ lower : List (Fin 128), lower.map lowerByte = body := by
    induction body with
    | nil => exact ⟨[], rfl⟩
    | cons b body ih =>
      rw [List.forall_mem_cons] at hbody
      obtain ⟨d, hd⟩ := exists_lowerByte hbody.1
      obtain ⟨lower, hlower⟩ := ih hbody.2
      exact ⟨d :: lower, by rw [List.map_cons, hd, hlower]⟩
  obtain ⟨lower, rfl⟩ := hlower
  exact ⟨⟨lower, digit⟩, rfl⟩

end Leb
end DwarfUnits
