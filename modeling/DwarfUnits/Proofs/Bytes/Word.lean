import DwarfUnits.Bytes.Order
import Mathlib.Tactic.Ring

/-! Words as runs of bytes: each number below `256 ^ width` has its bytes in either order. -/
namespace DwarfUnits.ByteOrder

/-- The `width` bytes of a number whose first byte counts least. -/
def littleBytes : ℕ → ℕ → List UInt8
  | 0, _ => []
  | width + 1, n => UInt8.ofNat n :: littleBytes width (n / 256)

def bytes : ByteOrder → ℕ → ℕ → List UInt8
  | little, width, n => littleBytes width n
  | big, width, n => (littleBytes width n).reverse

theorem length_littleBytes (width n : ℕ) : (littleBytes width n).length = width := by
  induction width generalizing n with
  | zero => rfl
  | succ width ih => rw [littleBytes, List.length_cons, ih]

@[simp] theorem length_bytes (order : ByteOrder) (width n : ℕ) :
    (order.bytes width n).length = width := by
  cases order <;> simp [bytes, length_littleBytes]

theorem littleValue_littleBytes {width n : ℕ} (h : n < 256 ^ width) :
    littleValue (littleBytes width n) = n := by
  induction width generalizing n with
  | zero =>
    have : n = 0 := by simpa using h
    rw [this]
    rfl
  | succ width ih =>
    have hrest : n / 256 < 256 ^ width := by
      rw [pow_succ] at h
      omega
    rw [littleBytes, littleValue, ih hrest]
    have hbyte : (UInt8.ofNat n).toNat = n % 256 := UInt8.toNat_ofNat'
    omega

theorem value_bytes (order : ByteOrder) {width n : ℕ} (h : n < 256 ^ width) :
    order.value (order.bytes width n) = n := by
  cases order
  · exact littleValue_littleBytes h
  · simpa [value, bytes] using littleValue_littleBytes h

theorem littleBytes_littleValue (run : List UInt8) :
    littleBytes run.length (littleValue run) = run := by
  induction run with
  | nil => rfl
  | cons b run ih =>
    have hb := b.toNat_lt
    have hlow : UInt8.ofNat (littleValue (b :: run)) = b := by
      apply UInt8.toNat_inj.mp
      rw [UInt8.toNat_ofNat', littleValue]
      omega
    have hrest : littleValue (b :: run) / 256 = littleValue run := by
      rw [littleValue]
      omega
    rw [List.length_cons, littleBytes, hlow, hrest, ih]

/-- Any run of bytes is the word of its own value. -/
theorem bytes_value (order : ByteOrder) (run : List UInt8) :
    order.bytes run.length (order.value run) = run := by
  cases order with
  | little => exact littleBytes_littleValue run
  | big =>
    have h := congrArg List.reverse (littleBytes_littleValue run.reverse)
    rwa [List.length_reverse, List.reverse_reverse] at h

theorem littleValue_lt (run : List UInt8) : littleValue run < 256 ^ run.length := by
  induction run with
  | nil => simp [littleValue]
  | cons b run ih =>
    have hb := b.toNat_lt
    rw [littleValue, List.length_cons, pow_succ]
    omega

theorem value_lt (order : ByteOrder) (run : List UInt8) : order.value run < 256 ^ run.length := by
  cases order with
  | little => exact littleValue_lt run
  | big => simpa [value] using littleValue_lt run.reverse

end DwarfUnits.ByteOrder
