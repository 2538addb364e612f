import DwarfUnits.Proofs.Bytes.Encoding
import DwarfUnits.Proofs.Cursor.Machine

/-! LEB128 numbers under the cursor: all bytes up to the first that ends an encoding are taken, and
their value is exact modulo the word size, however many they are. -/
namespace DwarfUnits

variable {α : Type} {src : Source} {pos : ℕ}

theorem Source.exists_indexFrom_iff {p : UInt8 → Bool} :
    (∃ j, src.indexFrom p pos = some j) ↔
      ∃ i, pos ≤ i ∧ ∃ h : i < src.bytes.size, p src.bytes[i] = true := by
  fun_induction Source.indexFrom src p pos with
  | case1 pos hpos hp =>
    constructor
    · intro _
      exact ⟨pos, Nat.le_refl pos, hpos, hp⟩
    · intro _
      exact ⟨pos, rfl⟩
  | case2 pos hpos hp ih =>
    rw [ih]
    constructor
    · rintro ⟨i, hi, hlast⟩
      exact ⟨i, Nat.le_of_succ_le hi, hlast⟩
    · rintro ⟨i, hi, hsize, hlast⟩
      have hne : pos ≠ i := by
        rintro rfl
        exact hp hlast
      exact ⟨i, Nat.lt_of_le_of_ne hi hne, hsize, hlast⟩
  | case3 pos hpos =>
    constructor
    · rintro ⟨j, hj⟩
      cases hj
    · rintro ⟨i, hi, hsize, -⟩
      omega

namespace Decode

/-- From `pos`, `d` takes the encoding that stands there, whose bytes `means` relates to the value,
and so does the machine, shift by shift; without an encoding the section is too short. -/
structure TakesEncoding (d : Decode α) (reader : Machine.Reader α) (means : List UInt8 → α → Prop)
    (src : Source) (pos : ℕ) : Prop where
  parses : d.Parses src pos fun run a => Leb128.IsEncoding run ∧ means run a
  succeeds : (∃ a, (d src pos).result = .ok a) ↔
    ∃ i, pos ≤ i ∧ ∃ h : i < src.bytes.size, Leb128.isLast src.bytes[i] = true
  /-- Nothing is taken of the bytes that are left, of which there is at least one too few. -/
  fails : ∀ e, (d src pos).result = .error e →
    e = .outOfBounds src.id pos (src.bytes.size - pos + 1) ∧ (d src pos).position = pos
  agrees : src.bytes.size < 2 ^ 63 → pos ≤ src.bytes.size → reader.Agrees d src pos

theorem encoding_reads {run : List UInt8} (h : Leb128.IsEncoding run) :
    (takeThrough Leb128.isLast).Reads src pos run run := by
  obtain ⟨body, last, rfl, hbody, hlast⟩ := h
  exact takeThrough_reads hbody hlast

/-- The bytes up to the end of an encoding, made into the only value that they can mean. -/
theorem takesEncoding {value : List UInt8 → α} {reader : Machine.Reader α}
    {means : List UInt8 → α → Prop}
    (hmeans : ∀ run a, Leb128.IsEncoding run → (means run a ↔ value run = a))
    (hagrees : src.bytes.size < 2 ^ 63 → pos ≤ src.bytes.size →
      reader.Agrees (value <$> takeThrough Leb128.isLast) src pos) :
    (value <$> takeThrough Leb128.isLast).TakesEncoding reader means src pos where
  parses := by
    have hfollows : (value <$> takeThrough Leb128.isLast).Follows src pos fun run a =>
        Leb128.IsEncoding run ∧ means run a := by
      apply Follows.map
      apply (takeThrough_follows _).imp
      rintro run taken - ⟨rfl, hrun⟩
      exact ⟨hrun, (hmeans _ _ hrun).mpr rfl⟩
    apply hfollows.parses
    rintro run a ⟨hrun, ha⟩
    exact (encoding_reads hrun).map ((hmeans run a hrun).mp ha)
  succeeds := by
    rw [← Source.exists_indexFrom_iff, map_result, takeThrough]
    cases src.indexFrom Leb128.isLast pos <;> simp [Functor.map, Except.map]
  fails := by
    intro e he
    rw [map_result, takeThrough] at he
    rw [map_position, takeThrough]
    cases hindex : src.indexFrom Leb128.isLast pos with
    | some i =>
      rw [hindex] at he
      cases he
    | none =>
      rw [hindex] at he
      cases he
      exact ⟨rfl, rfl⟩
  agrees := hagrees

theorem uleb128_takesEncoding :
    uleb128.TakesEncoding Machine.Reader.uleb128
      (fun run n => n.toNat = Leb128.natural run % 2 ^ 64) src pos := by
  apply takesEncoding
  · intro run n hrun
    rw [← Leb128.toNat_unsigned hrun, UInt64.toNat_inj, eq_comm]
  · exact Machine.Reader.uleb128_agrees

theorem sleb128_takesEncoding :
    sleb128.TakesEncoding Machine.Reader.sleb128
      (fun run n => n.toInt ≡ Leb128.integer run [ZMOD 2 ^ 64]) src pos := by
  apply takesEncoding
  · intro run n hrun
    constructor
    · intro hn
      exact Leb128.eq_of_modEq ((Leb128.toInt_signed hrun).trans hn.symm)
    · rintro rfl
      exact Leb128.toInt_signed hrun
  · exact Machine.Reader.sleb128_agrees

/-- Unsigned numbers are exact modulo the word size, and every word is read from its shortest
encoding, with any number of zero digits above it. -/
theorem uleb128_exact (src : Source) (pos : ℕ) :
    uleb128.TakesEncoding Machine.Reader.uleb128
      (fun run n => n.toNat = Leb128.natural run % 2 ^ 64) src pos ∧
    ∀ n : UInt64,
      (∀ run, Leb128.IsEncoding run → n.toNat = Leb128.natural run % 2 ^ 64 →
        (Leb128.shortest n).length ≤ run.length) ∧
      ∀ count, uleb128.Reads src pos (Leb128.zeroPad^[count] (Leb128.shortest n)) n := by
  refine ⟨uleb128_takesEncoding, fun n => ⟨fun run => Leb128.length_shortest_le_of_eq, ?_⟩⟩
  intro count hholds
  obtain ⟨hencoding, hvalue⟩ := Leb128.zeroPads_shortest n count
  apply (uleb128_takesEncoding.parses n _).mpr
  refine ⟨_, hholds, rfl, hencoding, ?_⟩
  rw [hvalue, Nat.mod_eq_of_lt n.toNat_lt]

/-- Signed numbers are exact modulo the word size in two's complement, and every word is read from
its shortest encoding, with any number of digits that repeat its sign above it. -/
theorem sleb128_exact (src : Source) (pos : ℕ) :
    sleb128.TakesEncoding Machine.Reader.sleb128
      (fun run n => n.toInt ≡ Leb128.integer run [ZMOD 2 ^ 64]) src pos ∧
    ∀ n : Int64,
      (∀ run, Leb128.IsEncoding run → n.toInt ≡ Leb128.integer run [ZMOD 2 ^ 64] →
        (Leb128.shortestSigned n).length ≤ run.length) ∧
      ∀ count, sleb128.Reads src pos (Leb128.signPad^[count] (Leb128.shortestSigned n)) n := by
  refine ⟨sleb128_takesEncoding,
    fun n => ⟨fun run => Leb128.length_shortestSigned_le_of_modEq, ?_⟩⟩
  intro count hholds
  obtain ⟨hencoding, hvalue⟩ := Leb128.signPads_shortestSigned n count
  apply (sleb128_takesEncoding.parses n _).mpr
  refine ⟨_, hholds, rfl, hencoding, ?_⟩
  rw [hvalue]

end Decode
end DwarfUnits
