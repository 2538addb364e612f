import DwarfUnits.Proofs.Bytes.Utf8
import DwarfUnits.Proofs.Decode.Reads

/-! Fields that several parts of an image share, as they are written and read. -/
namespace DwarfUnits

namespace Format

/-- Lengths that a format can state; the last word of the 32-bit format announces the other. -/
def lengthLimit : Format → ℕ
  | dwarf32 => 0xffffffff
  | dwarf64 => 2 ^ 64

def lengthBytes (order : ByteOrder) (n : ℕ) : Format → List UInt8
  | dwarf32 => order.bytes 4 n
  | dwarf64 => order.bytes 4 0xffffffff ++ order.bytes 8 n

def FitsOffset (n : UInt64) (format : Format) : Prop := n.toNat < 256 ^ format.offsetSize

instance (n : UInt64) (format : Format) : Decidable (format.FitsOffset n) :=
  inferInstanceAs (Decidable (_ < _))

def offsetBytes (order : ByteOrder) (n : UInt64) : Format → List UInt8
  | dwarf32 => order.bytes 4 n.toNat
  | dwarf64 => order.bytes 8 n.toNat

theorem offsetBytes_eq (order : ByteOrder) (n : UInt64) (format : Format) :
    format.offsetBytes order n = order.bytes format.offsetSize n.toNat := by
  cases format <;> rfl

theorem lengthLimit_le (format : Format) : format.lengthLimit ≤ UInt64.size := by
  cases format <;> decide

@[simp] theorem length_lengthBytes (order : ByteOrder) (n : ℕ) (format : Format) :
    (format.lengthBytes order n).length = format.lengthSize := by
  cases format <;> simp [lengthBytes, lengthSize]

@[simp] theorem length_offsetBytes (order : ByteOrder) (n : UInt64) (format : Format) :
    (format.offsetBytes order n).length = format.offsetSize := by
  rw [offsetBytes_eq, ByteOrder.length_bytes]

end Format

/-- Text that a zero byte can end. -/
structure Label where
  text : String
  zeroFree : Char.ofNat 0 ∉ text.toList

def Label.bytes (l : Label) : List UInt8 := Text.utf8 l.text ++ [0]

namespace Decode

variable {src : Source} {pos : ℕ}

theorem initialLength_reads {format : Format} {n : ℕ} (h : n < format.lengthLimit) :
    initialLength.Reads src pos (format.lengthBytes src.order n) (UInt64.ofNat n, format) := by
  unfold initialLength
  cases format with
  | dwarf32 =>
    have hn : n < UInt32.size := Nat.lt_trans h (by decide)
    have hword : (UInt32.ofNat n).toNat = n := UInt32.toNat_ofNat_of_lt' hn
    have hfirst : u32.Reads src pos _ (UInt32.ofNat n) := u32_reads _
    have hne : UInt32.ofNat n ≠ Format.escape := by
      intro heq
      have hn : n = 0xffffffff := by simpa [hword, Format.escape] using congrArg UInt32.toNat heq
      exact Nat.ne_of_lt h hn
    rw [hword] at hfirst
    refine hfirst.bind_last ?_
    rw [if_neg hne, UInt32.toUInt64_ofNat' hn]
    exact .pure _
  | dwarf64 =>
    have hword : (UInt64.ofNat n).toNat = n := UInt64.toNat_ofNat_of_lt' h
    apply (u32_reads Format.escape).bind
    rw [if_pos rfl, ← hword, UInt64.ofNat_toNat]
    exact (u64_reads (UInt64.ofNat n)).map rfl

theorem offset_reads {format : Format} {n : UInt64} (h : format.FitsOffset n) :
    (offset format).Reads src pos (format.offsetBytes src.order n) n := by
  rw [Format.offsetBytes_eq]
  exact (word_reads_bytes h).map UInt64.ofNat_toNat

/-- A run of the width of an offset is one. -/
theorem offset_reads_of_length {format : Format} {run : List UInt8}
    (h : run.length = format.offsetSize) :
    (offset format).Reads src pos run (UInt64.ofNat (src.order.value run)) :=
  (word_reads h).map rfl

theorem label_reads (l : Label) : cstring.Reads src pos l.bytes (Text.utf8 l.text) :=
  cstring_reads (Text.zero_not_mem_utf8 l.zeroFree)

end Decode
end DwarfUnits
