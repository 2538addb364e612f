import DwarfUnits.Proofs.Grammar.LineTable
import Mathlib.Algebra.Order.BigOperators.Group.List

/-! How long line table headers are: the bytes that are counted against the declared length, and
that the program starts where the tables end exactly if the two agree. -/
namespace DwarfUnits

/-- Items of at least `k` bytes each are at least `k` times as many bytes as there are items. -/
theorem mul_length_le_length_flatMap {α : Type} {write : α → List UInt8} {k : ℕ}
    (h : ∀ a, k ≤ (write a).length) (items : List α) :
    k * items.length ≤ (items.flatMap write).length := by
  have hsum := List.card_nsmul_le_sum (items.map fun a => (write a).length) k
    (List.forall_mem_map.mpr fun a _ => h a)
  rwa [List.length_map, Nat.nsmul_eq_mul, Nat.mul_comm, ← List.length_flatMap] at hsum

theorem RawPath.two_le_length_written (p : RawPath) : 2 ≤ p.written.length := by
  have hpos := List.length_pos_iff.mpr p.nonempty
  rw [written, List.length_append, List.length_singleton]
  omega

theorem RawFile.five_le_length_written (f : RawFile) : 5 ≤ f.written.length := by
  have hpath := f.path.two_le_length_written
  have hleb (l : Leb) : 0 < l.bytes.length := List.length_pos_iff.mpr l.bytes_ne_nil
  have hdirectory := hleb f.directory
  have htime := hleb f.time
  have hsize := hleb f.size
  simp only [written, List.length_append]
  omega

namespace LineHeader

variable {h : LineHeader} {order : ByteOrder} {pos : ℕ} {run : List UInt8}

theorem length_bodyBytes (h : LineHeader) (isStatement : UInt8) (directories : List RawPath)
    (files : List RawFile) :
    (h.bodyBytes isStatement directories files).length =
      (if 4 ≤ h.version then 8 else 7) + h.opcodeLengths.length +
        (directories.flatMap (·.written)).length + (files.flatMap (·.written)).length := by
  unfold bodyBytes
  split
  · simp only [List.length_append, List.length_singleton]
    omega
  · simp only [List.length_append, List.length_singleton, List.length_nil]
    omega

namespace WrittenAs

theorem exists_consumed_eq (hwritten : h.WrittenAs order pos run) :
    ∃ (isStatement : UInt8) (directories : List RawPath) (files : List RawFile),
      h.directories = directories.map (·.text) ∧ h.files = files.map (·.entry) ∧
      h.consumed = (h.bodyBytes isStatement directories files).length := by
  obtain ⟨isStatement, directories, files, -, hdirectories, hfiles, hrun⟩ := hwritten.parts
  have hstart := hwritten.headerStart
  have hend := hwritten.consumed
  have hlength := congrArg List.length hrun
  simp only [List.length_append, Format.length_lengthBytes, ByteOrder.length_bytes,
    Format.length_offsetBytes] at hlength
  exact ⟨isStatement, directories, files, hdirectories, hfiles, by omega⟩

/-- The fixed fields, the lengths of the opcodes, two zero bytes that end the tables, and the
tables with the fewest bytes that their items can have. -/
theorem le_consumed (hwritten : h.WrittenAs order pos run) :
    (if h.version = 4 then 8 else 7) + (h.opcodeBase.toNat - 1) + 2 * h.directories.length +
      5 * h.files.length ≤ h.consumed := by
  obtain ⟨isStatement, directories, files, hdirectories, hfiles, hconsumed⟩ :=
    hwritten.exists_consumed_eq
  have hdirectory : 2 * directories.length ≤ (directories.flatMap (·.written)).length :=
    mul_length_le_length_flatMap RawPath.two_le_length_written directories
  have hfile : 5 * files.length ≤ (files.flatMap (·.written)).length :=
    mul_length_le_length_flatMap RawFile.five_le_length_written files
  have hopcodes := hwritten.opcodeLengths
  have hversion : h.version = 4 ↔ 4 ≤ h.version := by
    have hle := hwritten.version.2
    rw [← UInt16.toNat_inj, UInt16.le_iff_toNat_le] at *
    omega
  rw [length_bodyBytes] at hconsumed
  rw [hdirectories, hfiles, List.length_map, List.length_map, if_congr hversion rfl rfl]
  omega

end WrittenAs

theorem validate_eq_ok_iff : h.validate = .ok () ↔ h.consumed = h.headerLength.toNat := by
  unfold validate
  split <;> simp_all

theorem validate_eq_error_iff {e : Error} :
    h.validate = .error e ↔ h.consumed ≠ h.headerLength.toNat ∧ h.mismatch = e := by
  unfold validate
  split <;> simp_all

/-- Tables that end below half the largest offset end elsewhere than a sum that is cut off there. -/
theorem programOffset_eq_iff {stop : ℕ} (hend : h.headerStart + h.consumed = stop)
    (hstop : stop < 2 ^ 63) : h.programOffset = stop ↔ h.consumed = h.headerLength.toNat := by
  have hlimit : UInt64.size - 1 = 2 ^ 64 - 1 := rfl
  rw [programOffset, hlimit]
  omega

end LineHeader

namespace LineTable

/-- The length of the tables is counted exactly, and is the declared one exactly if the program
starts where they end, also where the declared end of the header is past every 64-bit offset. -/
theorem headerLength_exact (src : Source) (hsize : src.bytes.size < 2 ^ 63) {pos : ℕ}
    {h : LineHeader} (hresult : (decode src pos).result = .ok (.supported h)) :
    h.headerStart ≤ (decode src pos).position ∧
    h.consumed = (decode src pos).position - h.headerStart ∧
    (if h.version = 4 then 8 else 7) + (h.opcodeBase.toNat - 1) + 2 * h.directories.length +
      5 * h.files.length ≤ h.consumed ∧
    (h.validate = .ok () ↔ h.programOffset = (decode src pos).position) ∧
    ∀ e, h.validate = .error e →
      e = .headerLengthMismatch h.offset h.headerLength h.consumed ∧
        h.headerLength.toNat ≠ h.consumed := by
  obtain ⟨run, hholds, hnext, hwritten⟩ := decode_follows.of_ok hresult
  have hend : h.headerStart + h.consumed = (decode src pos).position :=
    hnext ▸ LineHeader.WrittenAs.consumed hwritten
  have hstop : (decode src pos).position < 2 ^ 63 := by
    rw [hnext]
    exact Nat.lt_of_le_of_lt hholds.le_size hsize
  refine ⟨by omega, by omega, LineHeader.WrittenAs.le_consumed hwritten, ?_, ?_⟩
  · rw [LineHeader.validate_eq_ok_iff, LineHeader.programOffset_eq_iff hend hstop]
  · intro e he
    obtain ⟨hne, rfl⟩ := LineHeader.validate_eq_error_iff.mp he
    exact ⟨rfl, hne.symm⟩

/-- The shortest header with an opcode length, a directory and a file, which declares the largest
length there is: the end that it declares is cut off at the largest offset. -/
theorem headerLength_exact_saturated :
    ∃ h, (decode ⟨.lines, .little, ⟨#[255, 255, 255, 255, 0, 0, 0, 0, 0, 0, 0, 0, 4, 0,
        255, 255, 255, 255, 255, 255, 255, 255,
        1, 1, 1, 0xfb, 14, 2, 0, 97, 0, 0, 97, 0, 0, 0, 0, 0]⟩⟩ 0).result = .ok (.supported h) ∧
      h.consumed = 38 - 22 ∧ 8 + 1 + 2 * 1 + 5 * 1 ≤ h.consumed ∧
      h.programOffset = 2 ^ 64 - 1 ∧ h.validate ≠ .ok () := by
  have hparses : decode.Parses ⟨.lines, .little, ⟨#[255, 255, 255, 255, 0, 0, 0, 0, 0, 0, 0, 0,
      4, 0, 255, 255, 255, 255, 255, 255, 255, 255,
      1, 1, 1, 0xfb, 14, 2, 0, 97, 0, 0, 97, 0, 0, 0, 0, 0]⟩⟩ 0 (WrittenAs .little 0) :=
    decode_follows.parses fun _ _ => decode_reads
  have hwritten : WrittenAs .little 0 _ (.supported
      { offset := 0, format := .dwarf64, length := 0, version := 4,
        headerLength := 0xffffffffffffffff, headerStart := 22, minimumInstructionLength := 1,
        maximumOperations := 1, defaultIsStatement := true, lineBase := -5, lineRange := 14,
        opcodeBase := 2, opcodeLengths := [0], directories := ["a"], files := [⟨"a", 0⟩],
        consumed := 16 }) :=
    ⟨rfl, by decide, by decide, by decide, rfl, by decide, rfl, rfl, 1,
      [⟨[97], by decide, by decide⟩],
      [⟨⟨[97], by decide, by decide⟩, ⟨[], 0⟩, ⟨[], 0⟩, ⟨[], 0⟩⟩], rfl, rfl, rfl, rfl⟩
  obtain ⟨hresult, hnext⟩ :=
    (hparses _ 38).mpr ⟨_, ⟨[], [], (List.append_nil _).symm, rfl⟩, rfl, hwritten⟩
  obtain ⟨-, hconsumed, hle, hvalid, -⟩ := headerLength_exact _ (by decide) hresult
  rw [hnext] at hconsumed hvalid
  exact ⟨_, hresult, hconsumed, hle, rfl, mt hvalid.mp (by decide)⟩

end LineTable
end DwarfUnits
