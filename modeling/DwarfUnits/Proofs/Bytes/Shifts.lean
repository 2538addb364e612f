import DwarfUnits.Bytes.Leb128
import Mathlib.Tactic.Ring

/-! LEB128 numbers put together by shifts, seven bits a byte. -/
namespace DwarfUnits.Leb128

theorem isLast_iff {b : UInt8} : isLast b = true ↔ b &&& 0x80 = 0 := by
  have hall : ∀ n : Fin 256, isLast (.ofFin n) = true ↔ UInt8.ofFin n &&& 0x80 = 0 := by
    decide +kernel
  exact hall b.toFin

/-- What stands above the digits is a multiple of the next power of the base. -/
theorem fold_eq (start : UInt64) (bytes : List UInt8) :
    fold start bytes = fold 0 bytes + UInt64.ofNat (128 ^ bytes.length) * start := by
  induction bytes with
  | nil => simp [fold]
  | cons b bytes ih =>
    have hcons (start : UInt64) :
        fold start (b :: bytes) = (b &&& 0x7f).toUInt64 + 128 * fold start bytes := rfl
    rw [hcons, hcons, ih, List.length_cons, pow_succ, UInt64.ofNat_mul]
    grind

theorem fold_concat (start : UInt64) (bytes : List UInt8) (b : UInt8) :
    fold start (bytes ++ [b]) = fold ((b &&& 0x7f).toUInt64 + 128 * start) bytes := by
  simp [fold]

theorem digit_lt (b : UInt8) : (b &&& 0x7f).toUInt64.toNat < 128 := by
  rw [UInt8.toNat_toUInt64, UInt8.toNat_and]
  exact Nat.lt_of_le_of_lt Nat.and_le_right (by decide)

/-- Digits that are few enough leave the bits above them clear. -/
theorem fold_lt (bytes : List UInt8) (h : 7 * bytes.length < 64) :
    (fold 0 bytes).toNat < 128 ^ bytes.length := by
  induction bytes with
  | nil => decide
  | cons b bytes ih =>
    rw [List.length_cons] at h
    have hdigit := digit_lt b
    have hrest := ih (by omega)
    have hpow : 128 ^ (bytes.length + 1) ≤ 128 ^ 9 := Nat.pow_le_pow_right (by decide) (by omega)
    change ((b &&& 0x7f).toUInt64 + 128 * fold 0 bytes).toNat < _
    rw [List.length_cons, UInt64.toNat_add, UInt64.toNat_mul]
    rw [pow_succ] at hpow ⊢
    have h128 : (128 : UInt64).toNat = 128 := rfl
    rw [h128]
    omega

/-- Shifted by whole digits, what is above a few digits is put on top of them bit by bit. -/
theorem fold_eq_or (start : UInt64) {bytes : List UInt8} (h : 7 * bytes.length < 64) :
    fold start bytes = fold 0 bytes ||| (start <<< UInt64.ofNat (7 * bytes.length)) := by
  have hlt := fold_lt bytes h
  have hpow : (128 : ℕ) ^ bytes.length = 2 ^ (7 * bytes.length) := by rw [pow_mul]; rfl
  have hword : 2 ^ 64 = 2 ^ (7 * bytes.length) * 2 ^ (64 - 7 * bytes.length) := by
    rw [← pow_add, Nat.add_sub_cancel' h.le]
  rw [hpow] at hlt
  -- Only the low bits of what is above stay in the word.
  have hkept : 2 ^ (7 * bytes.length) * start.toNat % 2 ^ 64 =
      2 ^ (7 * bytes.length) * (start.toNat % 2 ^ (64 - 7 * bytes.length)) := by
    rw [hword, Nat.mul_mod_mul_left]
  have hfits : 2 ^ (7 * bytes.length) * (start.toNat % 2 ^ (64 - 7 * bytes.length)) +
      (fold 0 bytes).toNat < 2 ^ 64 := by
    have hrest := Nat.mod_lt start.toNat (Nat.two_pow_pos (64 - 7 * bytes.length))
    calc _ < 2 ^ (7 * bytes.length) * (start.toNat % 2 ^ (64 - 7 * bytes.length)) +
          2 ^ (7 * bytes.length) := Nat.add_lt_add_left hlt _
      _ = 2 ^ (7 * bytes.length) * (start.toNat % 2 ^ (64 - 7 * bytes.length) + 1) := by ring
      _ ≤ 2 ^ (7 * bytes.length) * 2 ^ (64 - 7 * bytes.length) := Nat.mul_le_mul_left _ hrest
      _ = 2 ^ 64 := hword.symm
  have hfactor : (UInt64.ofNat (128 ^ bytes.length)).toNat = 2 ^ (7 * bytes.length) := by
    rw [hpow]
    exact UInt64.toNat_ofNat_of_lt' (Nat.pow_lt_pow_right (by decide) h)
  have hshift : (UInt64.ofNat (7 * bytes.length)).toNat % 64 = 7 * bytes.length := by
    rw [UInt64.toNat_ofNat_of_lt' (Nat.lt_trans h (by decide)), Nat.mod_eq_of_lt h]
  apply UInt64.toNat_inj.mp
  rw [fold_eq, UInt64.toNat_add, UInt64.toNat_mul, hfactor, hkept, Nat.add_comm,
    Nat.mod_eq_of_lt hfits, UInt64.toNat_or, UInt64.toNat_shiftLeft, hshift, Nat.shiftLeft_eq,
    Nat.mul_comm start.toNat, hkept, Nat.or_comm, ← Nat.two_pow_add_eq_or_of_lt hlt]

/-- Nothing above the digits of a whole word is left in it. -/
theorem fold_eq_of_le (start : UInt64) {bytes : List UInt8} (h : 64 ≤ 7 * bytes.length) :
    fold start bytes = fold 0 bytes := by
  have hpow : UInt64.ofNat (128 ^ bytes.length) = 0 := by
    obtain ⟨n, hn⟩ := Nat.exists_eq_add_of_le (show 10 ≤ bytes.length by omega)
    rw [hn, pow_add, UInt64.ofNat_mul]
    exact UInt64.zero_mul
  rw [fold_eq, hpow, UInt64.zero_mul, UInt64.add_zero]

end DwarfUnits.Leb128
