import DwarfUnits.Proofs.Grammar.LineTable

/-! Line tables as they are written, and the record that either kind of walk makes of one. -/
namespace DwarfUnits

/-- A directory or the path of a file; an empty label would end their list. -/
structure Path extends Label where
  nonempty : text ≠ ""

structure FileImage where
  path : Path
  directory : Leb
  time : Leb
  size : Leb

structure LineTableBody where
  minimumInstructionLength : UInt8
  /-- Written from version 4 on. -/
  maximumOperations : UInt8
  defaultIsStatement : UInt8
  lineBase : UInt8
  lineRange : UInt8
  opcodeBase : UInt8
  /-- One for each opcode below `opcodeBase`. -/
  opcodeLengths : List UInt8
  directories : List Path
  files : List FileImage
  opcodeLengths_length : opcodeLengths.length = opcodeBase.toNat - 1

namespace FileImage

def bytes (f : FileImage) : List UInt8 :=
  f.path.bytes ++ (f.directory.bytes ++ (f.time.bytes ++ f.size.bytes))

def entry (f : FileImage) : FileEntry := ⟨f.path.text, f.directory.value⟩

end FileImage

namespace LineTableBody

def bytes (version : UInt16) (b : LineTableBody) : List UInt8 :=
  [b.minimumInstructionLength] ++ ((if 4 ≤ version then [b.maximumOperations] else []) ++
    ([b.defaultIsStatement] ++ ([b.lineBase] ++ ([b.lineRange] ++ ([b.opcodeBase] ++
      (b.opcodeLengths ++ ((b.directories.flatMap (·.bytes) ++ [0]) ++
        (b.files.flatMap (·.bytes) ++ [0]))))))))

end LineTableBody

/-- A table of any version; only in versions 2 to 4 is its header written, with its right length. -/
structure LineTableImage where
  format : Format
  /-- The declared length of the whole table, which nothing has to agree with. -/
  length : ℕ
  version : UInt16
  body : LineTableBody
  length_lt : length < format.lengthLimit
  body_fits : (body.bytes version).length < 256 ^ format.offsetSize

namespace LineTableImage

def IsSupported (t : LineTableImage) : Prop := 2 ≤ t.version ∧ t.version ≤ 4

instance (t : LineTableImage) : Decidable t.IsSupported := inferInstanceAs (Decidable (_ ∧ _))

def headerLength (t : LineTableImage) : UInt64 := UInt64.ofNat (t.body.bytes t.version).length

def encode (order : ByteOrder) (t : LineTableImage) : List UInt8 :=
  t.format.lengthBytes order t.length ++ (order.bytes 2 t.version.toNat ++
    (if t.IsSupported then t.format.offsetBytes order t.headerLength ++ t.body.bytes t.version
      else []))

def record (offset : ℕ) (t : LineTableImage) : LineTableRecord :=
  if t.IsSupported then
    { offset, version := t.version, status := .decoded,
      directories := t.body.directories.map (·.text), files := t.body.files.map (·.entry) }
  else { offset, version := t.version, status := .unsupportedVersion, directories := [], files := [] }

/-- The header of a supported table at `offset`, field by field. -/
def header (offset : ℕ) (t : LineTableImage) : LineHeader where
  offset
  format := t.format
  length := UInt64.ofNat t.length
  version := t.version
  headerLength := t.headerLength
  headerStart := offset + t.format.lengthSize + 2 + t.format.offsetSize
  minimumInstructionLength := t.body.minimumInstructionLength
  maximumOperations := if 4 ≤ t.version then t.body.maximumOperations else 1
  defaultIsStatement := t.body.defaultIsStatement ≠ 0
  lineBase := t.body.lineBase.toInt8
  lineRange := t.body.lineRange
  opcodeBase := t.body.opcodeBase
  opcodeLengths := t.body.opcodeLengths
  directories := t.body.directories.map (·.text)
  files := t.body.files.map (·.entry)
  consumed := (t.body.bytes t.version).length

theorem toNat_headerLength (t : LineTableImage) :
    t.headerLength.toNat = (t.body.bytes t.version).length := by
  refine UInt64.toNat_ofNat_of_lt' (Nat.lt_of_lt_of_le t.body_fits ?_)
  cases t.format <;> decide

theorem validate_header (offset : ℕ) (t : LineTableImage) : (t.header offset).validate = .ok () :=
  if_pos t.toNat_headerLength.symm

end LineTableImage

namespace Path

/-- Every text is a path as some bytes give it. -/
def raw (p : Path) : RawPath where
  bytes := Text.utf8 p.text
  nonempty := mt Text.utf8_eq_nil_iff.mp p.nonempty
  zeroFree := Text.zero_not_mem_utf8 p.zeroFree

theorem text_raw (p : Path) : p.raw.text = p.text := Text.ofBytes_utf8 p.text

end Path

namespace FileImage

def raw (f : FileImage) : RawFile := ⟨f.path.raw, f.directory, f.time, f.size⟩

theorem entry_raw (f : FileImage) : f.raw.entry = f.entry := by
  unfold RawFile.entry entry
  rw [← f.path.text_raw]
  rfl

end FileImage

namespace LineTableImage

theorem bodyBytes_header (offset : ℕ) (t : LineTableImage) :
    (t.header offset).bodyBytes t.body.defaultIsStatement (t.body.directories.map Path.raw)
      (t.body.files.map FileImage.raw) = t.body.bytes t.version := by
  have hmaximum : (if 4 ≤ t.version then [(t.header offset).maximumOperations] else []) =
      if 4 ≤ t.version then [t.body.maximumOperations] else [] := by
    split
    · exact congrArg (fun n => [n]) (if_pos ‹_›)
    · rfl
  unfold LineHeader.bodyBytes LineTableBody.bytes
  rw [List.flatMap_map, List.flatMap_map]
  change [_] ++ ((if 4 ≤ t.version then _ else _) ++ _) = _
  rw [hmaximum]
  rfl

/-- A table is written as the grammar has it. -/
theorem encode_writtenAs (order : ByteOrder) (offset : ℕ) (t : LineTableImage) :
    LineTable.WrittenAs order offset (t.encode order)
      (if t.IsSupported then .supported (t.header offset) else .unsupported offset t.version) := by
  have hlength : (t.header offset).length.toNat = t.length :=
    UInt64.toNat_ofNat_of_lt' (Nat.lt_of_lt_of_le t.length_lt t.format.lengthLimit_le)
  have hfits : t.format.FitsOffset t.headerLength := by
    rw [Format.FitsOffset, t.toNat_headerLength]
    exact t.body_fits
  unfold encode
  by_cases h : t.IsSupported
  · rw [if_pos h, if_pos h]
    refine ⟨rfl, hlength ▸ t.length_lt, h, hfits, rfl, fun hversion => ?_,
      t.body.opcodeLengths_length, ?_, t.body.defaultIsStatement, t.body.directories.map Path.raw,
      t.body.files.map FileImage.raw, rfl, ?_, ?_, ?_⟩
    · exact if_neg (UInt16.not_le.mpr hversion)
    · simp only [header, List.length_append, Format.length_lengthBytes, ByteOrder.length_bytes,
        Format.length_offsetBytes]
      omega
    · rw [List.map_map]
      exact List.map_congr_left fun p _ => p.text_raw.symm
    · rw [List.map_map]
      exact List.map_congr_left fun f _ => f.entry_raw.symm
    · rw [bodyBytes_header, hlength]
      rfl
  · rw [if_neg h, if_neg h, List.append_nil]
    exact ⟨rfl, h, t.format, t.length, t.length_lt, rfl⟩

theorem decode_reads {src : Source} {pos : ℕ} (t : LineTableImage) :
    LineTable.decode.Reads src pos (t.encode src.order)
      (if t.IsSupported then .supported (t.header pos) else .unsupported pos t.version) :=
  LineTable.decode_reads (t.encode_writtenAs src.order pos)

end LineTableImage

/-- Both kinds of walk make one record of a table. -/
theorem UnitRecord.decodeTable_reads {src : Source} {pos : ℕ} (strictness : Strictness) (t : LineTableImage) :
    (decodeTable strictness).Reads src pos (t.encode src.order) (t.record pos) := by
  apply t.decode_reads.bind_last
  unfold LineTableImage.record
  by_cases h : t.IsSupported
  · rw [if_pos h, if_pos h]
    have hstatus : (tableStatus strictness (t.header pos)).Reads src
        (pos + (t.encode src.order).length) [] .decoded := by
      unfold tableStatus
      rw [t.validate_header]
      exact .pure _
    exact hstatus.bind_nil (.pure _)
  · rw [if_neg h, if_neg h]
    exact .pure _

end DwarfUnits
