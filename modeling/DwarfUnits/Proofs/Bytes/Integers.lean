import DwarfUnits.Proofs.Bytes.Leb
import DwarfUnits.Proofs.Bytes.Shifts

/-! The integers that signed LEB128 encodings stand for. -/
namespace DwarfUnits.Leb

/-- The number that the digits make; bit 6 of the last one is a sign that stands above them all. -/
def integer (l : Leb) : ℤ :=
  (Nat.ofDigits 128 ((l.lower ++ [l.last]).map Fin.val) : ℕ) -
    if 64 ≤ l.last.val then 128 ^ l.bytes.length else 0

theorem sign_lastByte : ∀ d : Fin 128, (lastByte d &&& 0x40 ≠ 0) ↔ 64 ≤ d.val := by decide

theorem isNegative_bytes (l : Leb) : Leb128.isNegative l.bytes = decide (64 ≤ l.last.val) := by
  rw [Leb128.isNegative, bytes, List.getLast?_concat, Option.any_some]
  exact decide_eq_decide.mpr (sign_lastByte l.last)

/-- The signed value of an encoding is its integer modulo `2 ^ 64`. -/
theorem signed_bytes (l : Leb) : Leb128.signed l.bytes = Int64.ofInt l.integer := by
  have hdigits : (Leb128.fold 0 l.bytes).toInt64 =
      Int64.ofInt (Nat.ofDigits 128 ((l.lower ++ [l.last]).map Fin.val) : ℕ) := by
    have hvalue : Leb128.fold 0 l.bytes = l.value := l.unsigned_bytes
    rw [hvalue, value, UInt64.toInt64_ofNat', Int64.ofInt_eq_ofNat]
  have hpower : (UInt64.ofNat (128 ^ l.bytes.length)).toInt64 =
      Int64.ofInt (128 ^ l.bytes.length) := by
    rw [UInt64.toInt64_ofNat', ← Int64.ofInt_eq_ofNat, Nat.cast_pow, Nat.cast_ofNat]
  rw [Leb128.signed, isNegative_bytes, integer, Int64.ofInt_sub, ← hdigits]
  by_cases hsign : 64 ≤ l.last.val
  · have hones : (-1 : UInt64).toInt64 = -1 := rfl
    rw [decide_eq_true hsign, if_pos rfl, if_pos hsign, Leb128.fold_eq, UInt64.toInt64_add,
      UInt64.toInt64_mul, hpower, hones]
    grind
  · rw [decide_eq_false hsign, if_neg (by decide), if_neg hsign]
    exact (Int64.sub_zero _).symm

end DwarfUnits.Leb
