import DwarfUnits.Proofs.Bytes.Integers
import Mathlib.Algebra.BigOperators.Fin
import Mathlib.Data.Int.ModEq

/-! Runs of LEB128 bytes and the integers they stand for: sums of their digits, the shortest run of
each word, and longer ones that add nothing to it. -/
namespace DwarfUnits.Leb128

/-- A run of bytes up to the first that ends an encoding. -/
def IsEncoding (run : List UInt8) : Prop :=
  ∃ body last, run = body ++ [last] ∧ (∀ b ∈ body, isLast b = false) ∧ isLast last = true

/-- The sum of the low seven bits of each byte, every byte counting 128 times the one before it. -/
def natural (run : List UInt8) : ℕ :=
  ∑ i : Fin run.length, run[i].toNat % 128 * 2 ^ (7 * i.val)

/-- The same bits in two's complement, bit 6 of the last byte being the sign. -/
def integer (run : List UInt8) : ℤ :=
  natural run - if isNegative run then 2 ^ (7 * run.length) else 0

/-- The byte of the low seven bits. -/
def digit (n : UInt64) : UInt8 := (n &&& 0x7f).toUInt8

/-- One byte more, for the digit `fill`; the byte that was the last one goes on. -/
def lengthen (fill : UInt8) (run : List UInt8) : List UInt8 := run.map (· ||| 0x80) ++ [fill]

def zeroPad (run : List UInt8) : List UInt8 := lengthen 0 run

/-- A digit of zeros above a number that is not negative, of ones above one that is. -/
def signPad (run : List UInt8) : List UInt8 := lengthen (if isNegative run then 0x7f else 0) run

/-- All of the word is in its low seven bits, but for copies of the sign, which is bit 6. -/
def FitsDigit (n : Int64) : Prop :=
  n >>> 7 = 0 ∧ digit n.toUInt64 &&& 0x40 = 0 ∨ n >>> 7 = -1 ∧ digit n.toUInt64 &&& 0x40 ≠ 0

instance (n : Int64) : Decidable (FitsDigit n) := inferInstanceAs (Decidable (_ ∨ _))

theorem toNat_digit (n : UInt64) : (digit n).toNat = n.toNat % 128 := by
  have hmask : (0x7f : UInt64).toNat = 2 ^ 7 - 1 := rfl
  rw [digit, UInt64.toNat_toUInt8, UInt64.toNat_and, hmask, Nat.and_two_pow_sub_one_eq_mod]
  omega

theorem toInt_digit (n : Int64) : ((digit n.toUInt64).toNat : ℤ) = n.toInt % 128 := by
  have hbits : n.toUInt64.toNat = n.toBitVec.toNat := rfl
  have hsigned : n.toInt = n.toBitVec.toInt := rfl
  rw [toNat_digit, hbits, hsigned, BitVec.toInt_eq_toNat_cond]
  split <;> omega

theorem toNat_shift (n : UInt64) : (n >>> 7).toNat = n.toNat / 128 := by
  have hseven : (7 : UInt64).toNat % 64 = 7 := rfl
  rw [UInt64.toNat_shiftRight, hseven, Nat.shiftRight_eq_div_pow]

/-- The sign is shifted in, so the quotient is rounded down. -/
theorem toInt_shift (n : Int64) : (n >>> 7).toInt = n.toInt / 128 := by
  have hseven : ((7 : Int64).toBitVec.smod 64).toNat = 7 := rfl
  rw [← Int64.toInt_toBitVec, Int64.toBitVec_shiftRight, BitVec.sshiftRight', hseven,
    BitVec.toInt_sshiftRight, Int.shiftRight_eq_div_pow, Int64.toInt_toBitVec]
  rfl

theorem shift_eq_zero_iff {n : UInt64} : n >>> 7 = 0 ↔ n.toNat < 128 := by
  rw [← UInt64.toNat_inj, toNat_shift, UInt64.toNat_zero]
  omega

/-- What holds of all bytes can be decided by their numbers. -/
theorem forall_byte {p : UInt8 → Prop} (h : ∀ n : Fin 256, p (.ofFin n)) (b : UInt8) : p b :=
  h b.toFin

theorem sign_eq_zero_iff {b : UInt8} : b &&& 0x40 = 0 ↔ b.toNat % 128 < 64 := by
  apply forall_byte ?_ b
  decide +kernel

theorem fitsDigit_iff {n : Int64} : FitsDigit n ↔ -64 ≤ n.toInt ∧ n.toInt < 64 := by
  have hdigit := toInt_digit n
  have hzero : n >>> 7 = 0 ↔ n.toInt / 128 = 0 := by
    rw [← Int64.toInt_inj, toInt_shift, Int64.toInt_zero]
  have hones : n >>> 7 = -1 ↔ n.toInt / 128 = -1 := by
    rw [← Int64.toInt_inj, toInt_shift]
    rfl
  unfold FitsDigit
  rw [hzero, hones, ne_eq, sign_eq_zero_iff]
  omega

/-- The lowest digit first, as long as there is something above it. -/
def shortest (n : UInt64) : List UInt8 :=
  if n >>> 7 = 0 then [digit n] else (digit n ||| 0x80) :: shortest (n >>> 7)
termination_by n.toNat
decreasing_by
  rename_i h
  rw [shift_eq_zero_iff] at h
  rw [toNat_shift]
  omega

/-- The lowest digit first, as long as there is more than the sign above it. -/
def shortestSigned (n : Int64) : List UInt8 :=
  if FitsDigit n then [digit n.toUInt64]
  else (digit n.toUInt64 ||| 0x80) :: shortestSigned (n >>> 7)
termination_by n.toInt.natAbs
decreasing_by
  rename_i h
  rw [fitsDigit_iff] at h
  rw [toInt_shift]
  omega

variable {run : List UInt8}

theorem natural_nil : natural [] = 0 := rfl

theorem natural_cons (b : UInt8) (run : List UInt8) :
    natural (b :: run) = b.toNat % 128 + 128 * natural run := by
  have hsplit : natural (b :: run) = b.toNat % 128 * 2 ^ (7 * 0) +
      ∑ i : Fin run.length, run[i].toNat % 128 * 2 ^ (7 * (i.val + 1)) := Fin.sum_univ_succ _
  have hterm (i : Fin run.length) : run[i].toNat % 128 * 2 ^ (7 * (i.val + 1)) =
      128 * (run[i].toNat % 128 * 2 ^ (7 * i.val)) := by
    rw [Nat.mul_succ, pow_add]
    ring
  rw [hsplit, natural, Finset.mul_sum, Finset.sum_congr rfl fun i _ => hterm i]
  simp

theorem natural_concat (run : List UInt8) (b : UInt8) :
    natural (run ++ [b]) = natural run + b.toNat % 128 * 2 ^ (7 * run.length) := by
  induction run with
  | nil => simp [natural_cons, natural_nil]
  | cons a run ih =>
    rw [List.cons_append, natural_cons, natural_cons, ih, List.length_cons, Nat.mul_succ, pow_add]
    ring

theorem natural_lt (run : List UInt8) : natural run < 128 ^ run.length := by
  induction run with
  | nil => decide
  | cons b run ih =>
    have hdigit : b.toNat % 128 < 128 := Nat.mod_lt _ (by decide)
    rw [natural_cons, List.length_cons, pow_succ]
    omega

theorem isNegative_concat (run : List UInt8) (b : UInt8) :
    isNegative (run ++ [b]) = decide (b &&& 0x40 ≠ 0) := by
  rw [isNegative, List.getLast?_concat, Option.any_some]

theorem isNegative_cons (b : UInt8) (h : run ≠ []) : isNegative (b :: run) = isNegative run := by
  rw [isNegative, isNegative, List.getLast?_cons_of_ne_nil h]

theorem integer_singleton (b : UInt8) :
    integer [b] = b.toNat % 128 - if b.toNat % 128 < 64 then 0 else 128 := by
  have hsign : isNegative [b] = decide (b &&& 0x40 ≠ 0) := isNegative_concat [] b
  rw [integer, natural_cons, natural_nil, hsign]
  by_cases h : b &&& 0x40 = 0
  · rw [if_pos (sign_eq_zero_iff.mp h), h]
    simp
  · rw [if_neg (mt sign_eq_zero_iff.mpr h), if_pos (decide_eq_true h)]
    simp

theorem integer_cons (b : UInt8) (h : run ≠ []) :
    integer (b :: run) = b.toNat % 128 + 128 * integer run := by
  rw [integer, integer, natural_cons, isNegative_cons b h, List.length_cons, Nat.mul_succ, pow_add]
  split <;> push_cast <;> ring

/-- As many digits as there are have room for the sign and the bits below it. -/
theorem integer_bounds {k : ℕ} (hk : run.length = k + 1) :
    -(64 * 128 ^ k) ≤ integer run ∧ integer run < 64 * 128 ^ k := by
  induction k generalizing run with
  | zero =>
    obtain ⟨b, rfl⟩ := List.length_eq_one_iff.mp hk
    rw [integer_singleton]
    split <;> omega
  | succ k ih =>
    cases run with
    | nil => cases hk
    | cons b run =>
      have hrun : run.length = k + 1 := Nat.succ.inj hk
      have hrest := ih hrun
      rw [integer_cons b (List.ne_nil_of_length_eq_add_one hrun), pow_succ']
      omega

theorem isLast_mark : ∀ b, isLast (b ||| 0x80) = false := by
  apply forall_byte
  decide +kernel

/-- The high bit of a byte is no part of its digit. -/
theorem toNat_mark : ∀ b : UInt8, (b ||| 0x80).toNat % 128 = b.toNat % 128 := by
  apply forall_byte
  decide +kernel

theorem natural_mark (run : List UInt8) : natural (run.map (· ||| 0x80)) = natural run := by
  induction run with
  | nil => rfl
  | cons b run ih => rw [List.map_cons, natural_cons, natural_cons, toNat_mark, ih]

theorem natural_lengthen (fill : UInt8) (run : List UInt8) :
    natural (lengthen fill run) = natural run + fill.toNat % 128 * 2 ^ (7 * run.length) := by
  rw [lengthen, natural_concat, natural_mark, List.length_map]

theorem natural_zeroPad (run : List UInt8) : natural (zeroPad run) = natural run := by
  have hzero : (0 : UInt8).toNat % 128 = 0 := rfl
  rw [zeroPad, natural_lengthen, hzero, Nat.zero_mul, Nat.add_zero]

/-- A digit of ones more is worth as much as the sign that it moves up. -/
theorem integer_signPad (run : List UInt8) : integer (signPad run) = integer run := by
  have hlength (fill : UInt8) : (lengthen fill run).length = run.length + 1 := by simp [lengthen]
  have hsign (fill : UInt8) : isNegative (lengthen fill run) = decide (fill &&& 0x40 ≠ 0) :=
    isNegative_concat _ fill
  rw [signPad, integer, integer, hlength, hsign, natural_lengthen, Nat.mul_succ, pow_add]
  by_cases h : isNegative run
  · have hones : (0x7f : UInt8).toNat % 128 = 127 := rfl
    rw [if_pos h, if_pos h, if_pos (by decide), hones]
    push_cast
    ring
  · rw [if_neg h, if_neg h, if_neg (by decide)]
    simp

namespace IsEncoding

theorem singleton {b : UInt8} (h : isLast b = true) : IsEncoding [b] := ⟨[], b, rfl, by simp, h⟩

theorem cons {b : UInt8} (hb : isLast b = false) (h : IsEncoding run) : IsEncoding (b :: run) := by
  obtain ⟨body, last, rfl, hbody, hlast⟩ := h
  refine ⟨b :: body, last, rfl, ?_, hlast⟩
  rw [List.forall_mem_cons]
  exact ⟨hb, hbody⟩

theorem ne_nil (h : IsEncoding run) : run ≠ [] := by
  obtain ⟨body, last, rfl, -⟩ := h
  simp

theorem lengthen {fill : UInt8} (h : isLast fill = true) (run : List UInt8) :
    IsEncoding (lengthen fill run) := by
  refine ⟨run.map (· ||| 0x80), fill, rfl, ?_, h⟩
  intro b hb
  obtain ⟨a, -, rfl⟩ := List.mem_map.mp hb
  exact isLast_mark a

theorem exists_bytes (h : IsEncoding run) : ∃ l : Leb, l.bytes = run := by
  obtain ⟨body, last, rfl, hbody, hlast⟩ := h
  exact Leb.exists_bytes hbody hlast

end IsEncoding

theorem natural_bytes (l : Leb) :
    natural l.bytes = Nat.ofDigits 128 ((l.lower ++ [l.last]).map Fin.val) := by
  have hlower : ∀ d, (Leb.lowerByte d).toNat % 128 = d.val := by decide
  have hlast : ∀ d, (Leb.lastByte d).toNat % 128 = d.val := by decide
  obtain ⟨lower, last⟩ := l
  unfold Leb.bytes
  induction lower with
  | nil => simp [natural_cons, natural_nil, hlast]
  | cons d lower ih =>
    rw [List.map_cons, List.cons_append, natural_cons, hlower, ih, List.cons_append, List.map_cons,
      Nat.ofDigits_cons]

theorem integer_bytes (l : Leb) : integer l.bytes = l.integer := by
  have hpow : (2 : ℤ) ^ (7 * l.bytes.length) = 128 ^ l.bytes.length := pow_mul 2 7 _
  rw [integer, Leb.integer, natural_bytes, l.isNegative_bytes, hpow]
  simp

theorem toNat_unsigned (h : IsEncoding run) : (unsigned run).toNat = natural run % 2 ^ 64 := by
  obtain ⟨l, rfl⟩ := h.exists_bytes
  rw [l.unsigned_bytes, Leb.value, natural_bytes, UInt64.toNat_ofNat']

theorem toInt_signed (h : IsEncoding run) :
    (signed run).toInt ≡ integer run [ZMOD 2 ^ 64] := by
  obtain ⟨l, rfl⟩ := h.exists_bytes
  rw [l.signed_bytes, integer_bytes, Int64.toInt_ofInt]
  exact Int.bmod_emod

/-- Of the integers that differ by multiples of the word size, one is a signed word. -/
theorem eq_of_modEq {m n : Int64} (h : m.toInt ≡ n.toInt [ZMOD 2 ^ 64]) : m = n := by
  have hm := And.intro m.le_toInt m.toInt_lt
  have hn := And.intro n.le_toInt n.toInt_lt
  have hmod : m.toInt % 2 ^ 64 = n.toInt % 2 ^ 64 := h
  apply Int64.toInt_inj.mp
  omega

theorem isLast_digit (n : UInt64) : isLast (digit n) = true := by
  have hdigit := toNat_digit n
  rw [isLast, decide_eq_true_iff, UInt8.lt_iff_toNat_lt]
  change _ < 128
  omega

theorem isEncoding_shortest (n : UInt64) : IsEncoding (shortest n) := by
  fun_induction shortest n with
  | case1 n h => exact .singleton (isLast_digit n)
  | case2 n h ih => exact ih.cons (isLast_mark _)

theorem isEncoding_shortestSigned (n : Int64) : IsEncoding (shortestSigned n) := by
  fun_induction shortestSigned n with
  | case1 n h => exact .singleton (isLast_digit _)
  | case2 n h ih => exact ih.cons (isLast_mark _)

theorem natural_shortest (n : UInt64) : natural (shortest n) = n.toNat := by
  fun_induction shortest n with
  | case1 n h =>
    rw [shift_eq_zero_iff] at h
    rw [natural_cons, natural_nil, toNat_digit]
    omega
  | case2 n h ih =>
    rw [natural_cons, toNat_mark, toNat_digit, ih, toNat_shift]
    omega

theorem integer_shortestSigned (n : Int64) : integer (shortestSigned n) = n.toInt := by
  fun_induction shortestSigned n with
  | case1 n h =>
    have hdigit := toInt_digit n
    rw [fitsDigit_iff] at h
    rw [integer_singleton]
    split <;> omega
  | case2 n h ih =>
    have hdigit := toInt_digit n
    have hmark := toNat_mark (digit n.toUInt64)
    rw [integer_cons _ (isEncoding_shortestSigned _).ne_nil, ih, toInt_shift]
    omega

/-- The least word takes ten bytes, of whose last digit only the lowest bit is in the word. -/
example : shortestSigned Int64.minValue =
    [0x80, 0x80, 0x80, 0x80, 0x80, 0x80, 0x80, 0x80, 0x80, 0x7f] := by cbv

theorem zeroPads_shortest (n : UInt64) (count : ℕ) :
    IsEncoding (zeroPad^[count] (shortest n)) ∧
      natural (zeroPad^[count] (shortest n)) = n.toNat := by
  induction count with
  | zero => exact ⟨isEncoding_shortest n, natural_shortest n⟩
  | succ count ih =>
    rw [Function.iterate_succ_apply']
    exact ⟨.lengthen rfl _, (natural_zeroPad _).trans ih.2⟩

theorem signPads_shortestSigned (n : Int64) (count : ℕ) :
    IsEncoding (signPad^[count] (shortestSigned n)) ∧
      integer (signPad^[count] (shortestSigned n)) = n.toInt := by
  induction count with
  | zero => exact ⟨isEncoding_shortestSigned n, integer_shortestSigned n⟩
  | succ count ih =>
    rw [Function.iterate_succ_apply']
    refine ⟨.lengthen ?_ _, (integer_signPad _).trans ih.2⟩
    split <;> rfl

theorem length_shortest_le {n : UInt64} {k : ℕ} (h : n.toNat < 128 ^ (k + 1)) :
    (shortest n).length ≤ k + 1 := by
  induction k generalizing n with
  | zero => rw [shortest, if_pos (shift_eq_zero_iff.mpr h), List.length_singleton]
  | succ k ih =>
    rw [shortest]
    split
    · simp
    · rw [pow_succ] at h
      rw [List.length_cons]
      apply Nat.succ_le_succ
      apply ih
      rw [toNat_shift]
      omega

theorem length_shortestSigned_le {n : Int64} {k : ℕ} (hlow : -(64 * 128 ^ k) ≤ n.toInt)
    (hhigh : n.toInt < 64 * 128 ^ k) : (shortestSigned n).length ≤ k + 1 := by
  induction k generalizing n with
  | zero => rw [shortestSigned, if_pos (fitsDigit_iff.mpr ⟨hlow, hhigh⟩), List.length_singleton]
  | succ k ih =>
    rw [shortestSigned]
    split
    · simp
    · rw [pow_succ'] at hlow hhigh
      rw [List.length_cons]
      apply Nat.succ_le_succ
      apply ih
      · rw [toInt_shift]
        omega
      · rw [toInt_shift]
        omega

theorem length_shortest_le_of_eq {n : UInt64} (h : IsEncoding run)
    (hn : n.toNat = natural run % 2 ^ 64) : (shortest n).length ≤ run.length := by
  obtain ⟨k, hk⟩ := Nat.exists_eq_succ_of_ne_zero (mt List.length_eq_zero_iff.mp h.ne_nil)
  have hlt := natural_lt run
  have hle := Nat.mod_le (natural run) (2 ^ 64)
  rw [hk] at hlt ⊢
  apply length_shortest_le
  omega

theorem length_shortestSigned_le_of_modEq {n : Int64} (h : IsEncoding run)
    (hn : n.toInt ≡ integer run [ZMOD 2 ^ 64]) : (shortestSigned n).length ≤ run.length := by
  obtain ⟨k, hk⟩ := Nat.exists_eq_succ_of_ne_zero (mt List.length_eq_zero_iff.mp h.ne_nil)
  have hlow := n.le_toInt
  have hhigh := n.toInt_lt
  rw [hk]
  -- Up to nine digits are less than a word, so the run stands for `n` itself; ten hold any word.
  by_cases hshort : k ≤ 8
  · have hpow : (128 : ℤ) ^ k ≤ 128 ^ 8 := pow_le_pow_right₀ (by decide) hshort
    have hmod : n.toInt % 2 ^ 64 = integer run % 2 ^ 64 := hn
    have hrun := integer_bounds hk
    have heq : n.toInt = integer run := by omega
    rw [← heq] at hrun
    exact length_shortestSigned_le hrun.1 hrun.2
  · have hpow : (128 : ℤ) ^ 9 ≤ 128 ^ k := pow_le_pow_right₀ (by decide) (by omega)
    apply length_shortestSigned_le
    · omega
    · omega

end DwarfUnits.Leb128
