import DwarfUnits.Proofs.Grammar.Basic
import DwarfUnits.Proofs.Unit.Bounds

/-! Headers of line tables as they are written, and that nothing else is taken for one. -/
namespace DwarfUnits

/-- The bytes of a directory or of the path of a file, in any encoding. -/
structure RawPath where
  bytes : List UInt8
  nonempty : bytes ≠ []
  zeroFree : 0 ∉ bytes

structure RawFile where
  path : RawPath
  directory : Leb
  time : Leb
  size : Leb

namespace RawPath

def written (p : RawPath) : List UInt8 := p.bytes ++ [0]

def text (p : RawPath) : String := Text.ofBytes p.bytes

theorem isEmpty_bytes (p : RawPath) : p.bytes.isEmpty = false :=
  List.isEmpty_eq_false_iff.mpr p.nonempty

end RawPath

namespace RawFile

def written (f : RawFile) : List UInt8 :=
  f.path.written ++ (f.directory.bytes ++ (f.time.bytes ++ f.size.bytes))

def entry (f : RawFile) : FileEntry := ⟨f.path.text, f.directory.value⟩

end RawFile

namespace LineHeader

/-- What follows the declared header length of `h`. The byte for `isStatement` and the times and
sizes of the files are not kept in `h`. -/
def bodyBytes (h : LineHeader) (isStatement : UInt8) (directories : List RawPath)
    (files : List RawFile) : List UInt8 :=
  [h.minimumInstructionLength] ++ ((if 4 ≤ h.version then [h.maximumOperations] else []) ++
    ([isStatement] ++ ([h.lineBase.toUInt8] ++ ([h.lineRange] ++ ([h.opcodeBase] ++
      (h.opcodeLengths ++ ((directories.flatMap (·.written) ++ [0]) ++
        (files.flatMap (·.written) ++ [0]))))))))

/-- `run` is the header `h` as it is written at `pos`. -/
structure WrittenAs (order : ByteOrder) (pos : ℕ) (run : List UInt8) (h : LineHeader) : Prop where
  offset : h.offset = pos
  /-- A length of four bytes is not the word that announces eight more. -/
  length : h.length.toNat < h.format.lengthLimit
  version : 2 ≤ h.version ∧ h.version ≤ 4
  headerLength : h.format.FitsOffset h.headerLength
  headerStart : h.headerStart = pos + h.format.lengthSize + 2 + h.format.offsetSize
  maximumOperations : h.version < 4 → h.maximumOperations = 1
  opcodeLengths : h.opcodeLengths.length = h.opcodeBase.toNat - 1
  consumed : h.headerStart + h.consumed = pos + run.length
  parts : ∃ (isStatement : UInt8) (directories : List RawPath) (files : List RawFile),
    h.defaultIsStatement = decide (isStatement ≠ 0) ∧
    h.directories = directories.map (·.text) ∧ h.files = files.map (·.entry) ∧
    run = h.format.lengthBytes order h.length.toNat ++ (order.bytes 2 h.version.toNat ++
      (h.format.offsetBytes order h.headerLength ++ h.bodyBytes isStatement directories files))

end LineHeader

namespace LineTable

/-- `run` is what is read of `table` at `pos`: nothing after a version without a known layout. -/
def WrittenAs (order : ByteOrder) (pos : ℕ) (run : List UInt8) : LineTable → Prop
  | supported h => h.WrittenAs order pos run
  | unsupported offset version => offset = pos ∧ ¬(2 ≤ version ∧ version ≤ 4) ∧
      ∃ (format : Format) (length : ℕ), length < format.lengthLimit ∧
        run = format.lengthBytes order length ++ order.bytes 2 version.toNat

variable {src : Source} {pos : ℕ}

theorem isSupported_iff {version : UInt16} :
    isSupported version = true ↔ 2 ≤ version ∧ version ≤ 4 := by
  simp [isSupported]

/-- A path, or the zero byte alone, which ends a list. -/
theorem path_follows : Decode.cstring.Follows src pos fun run bytes =>
    if bytes.isEmpty then run = [0] else ∃ p : RawPath, run = p.written ∧ bytes = p.bytes := by
  refine Decode.cstring_follows.imp fun run bytes _ hrun => ?_
  obtain ⟨hzero, rfl⟩ := hrun
  cases bytes with
  | nil => rfl
  | cons b bytes => exact ⟨⟨b :: bytes, List.cons_ne_nil b bytes, hzero⟩, rfl, rfl⟩

theorem directory_follows :
    directory.Follows src pos (Decode.Element (· = [0]) RawPath.written RawPath.text) := by
  unfold directory
  refine path_follows.bind fun bytes run hsize hrun => ?_
  by_cases hempty : bytes.isEmpty
  · rw [if_pos hempty] at hrun
    subst hrun
    rw [if_pos hempty]
    exact .pure hsize rfl
  · rw [if_neg hempty] at hrun
    obtain ⟨p, rfl, rfl⟩ := hrun
    rw [if_neg hempty]
    exact .pure hsize ⟨p, List.append_nil _, rfl⟩

theorem file_follows :
    file.Follows src pos (Decode.Element (· = [0]) RawFile.written RawFile.entry) := by
  have hpassed : ∀ pos, (discard Decode.uleb128 : Decode Unit).Follows src pos fun run _ =>
      ∃ l : Leb, run = l.bytes := by
    intro pos
    refine .discard (Decode.uleb128_follows.imp fun run n _ hrun => ?_)
    obtain ⟨l, hl, -⟩ := hrun
    exact ⟨l, hl⟩
  unfold file
  refine path_follows.bind fun bytes run hsize hrun => ?_
  refine .ite (fun hempty => ?_) fun hempty => ?_
  · rw [if_pos hempty] at hrun
    subst hrun
    exact .pure hsize rfl
  · rw [if_neg hempty] at hrun
    obtain ⟨path, rfl, rfl⟩ := hrun
    refine Decode.uleb128_follows.bind fun directoryIndex run₁ _ hrun₁ => ?_
    refine (hpassed _).bind fun _ run₂ _ hrun₂ => ?_
    refine (hpassed _).bind fun _ run₃ hend hrun₃ => ?_
    refine .emit_bind (.pure hend ?_)
    obtain ⟨directory, rfl, rfl⟩ := hrun₁
    obtain ⟨time, rfl⟩ := hrun₂
    obtain ⟨size, rfl⟩ := hrun₃
    refine ⟨⟨path, directory, time, size⟩, ?_, rfl⟩
    rw [List.append_nil]
    rfl

theorem directories_follows (hpos : pos ≤ src.bytes.size) :
    (Decode.collect directory).Follows src pos fun run texts => ∃ paths : List RawPath,
      run = paths.flatMap (·.written) ++ [0] ∧ texts = paths.map (·.text) := by
  have hmoves : directory.Advances src 1 fun _ => True :=
    directory_advances.mono (Nat.le_refl 1) fun _ _ => trivial
  refine (Decode.collect_follows hmoves (fun _ => directory_follows) hpos).imp ?_
  rintro run texts - ⟨paths, rest, rfl, hrun, htexts⟩
  exact ⟨paths, hrun, htexts⟩

theorem files_follows (hpos : pos ≤ src.bytes.size) :
    (Decode.collect file).Follows src pos fun run entries => ∃ files : List RawFile,
      run = files.flatMap (·.written) ++ [0] ∧ entries = files.map (·.entry) := by
  have hmoves : file.Advances src 1 fun _ => True :=
    file_advances.mono (Nat.le_refl 1) fun _ _ => trivial
  refine (Decode.collect_follows hmoves (fun _ => file_follows) hpos).imp ?_
  rintro run entries - ⟨files, rest, rfl, hrun, hentries⟩
  exact ⟨files, hrun, hentries⟩

theorem maximumOperations_follows (version : UInt16) (hpos : pos ≤ src.bytes.size) :
    (if 4 ≤ version then Decode.u8 else pure 1).Follows src pos fun run n =>
      run = (if 4 ≤ version then [n] else []) ∧ (version < 4 → n = 1) := by
  split
  · exact Decode.u8_follows.imp fun run n _ hrun =>
      ⟨hrun, fun hlt => absurd ‹4 ≤ version› (UInt16.not_le.mpr hlt)⟩
  · exact .pure hpos ⟨rfl, fun _ => rfl⟩

theorem header_follows {offset : ℕ} {format : Format} {length : UInt64} {version : UInt16}
    (hlength : length.toNat < format.lengthLimit) (hversion : 2 ≤ version ∧ version ≤ 4)
    (hpos : pos = offset + format.lengthSize + 2) :
    (header offset format length version).Follows src pos fun run h =>
      h.WrittenAs src.order offset (format.lengthBytes src.order length.toNat ++
        (src.order.bytes 2 version.toNat ++ run)) := by
  unfold header
  refine (Decode.offset_follows format).bind fun headerLength run₀ _ hrun₀ => ?_
  refine .position_bind (Decode.u8_follows.bind fun minimum run₁ hsize₁ hrun₁ => ?_)
  refine .ite_bind (maximumOperations_follows version hsize₁) fun maximum run₂ _ hrun₂ => ?_
  refine Decode.u8_follows.bind fun isStatement run₃ _ hrun₃ => ?_
  refine Decode.i8_follows.bind fun lineBase run₄ _ hrun₄ => ?_
  refine Decode.u8_follows.bind fun lineRange run₅ _ hrun₅ => ?_
  refine Decode.u8_follows.bind fun opcodeBase run₆ _ hrun₆ => ?_
  refine (Decode.take_follows _).bind fun opcodeLengths run₇ hsize₇ hrun₇ => ?_
  refine (directories_follows hsize₇).bind fun texts run₈ hsize₈ hrun₈ => ?_
  refine (files_follows hsize₈).bind fun entries run₉ hsize₉ hrun₉ => ?_
  refine .position_bind (.pure hsize₉ ?_)
  obtain ⟨hfits, hrun₀⟩ := hrun₀
  obtain ⟨hrun₂, hmaximum⟩ := hrun₂
  obtain ⟨hopcodes, rfl⟩ := hrun₇
  obtain ⟨directories, hrun₈, htexts⟩ := hrun₈
  obtain ⟨files, hrun₉, hentries⟩ := hrun₉
  refine ⟨rfl, hlength, hversion, hfits, ?_, hmaximum, hopcodes, ?_, isStatement, directories,
    files, rfl, htexts, hentries, ?_⟩
  · rw [hpos, hrun₀, Format.length_offsetBytes]
  · simp only [List.length_append, Format.length_lengthBytes, ByteOrder.length_bytes,
      List.length_nil]
    omega
  · rw [hrun₀, hrun₁, hrun₂, hrun₃, hrun₄, hrun₅, hrun₆, hrun₈, hrun₉, List.append_nil]
    rfl

theorem decode_follows : decode.Follows src pos (WrittenAs src.order pos) := by
  unfold decode
  refine .position_bind (Decode.initialLength_follows.bind fun (length, format) run₁ _ hrun₁ => ?_)
  obtain ⟨hlength, rfl⟩ := hrun₁
  refine Decode.u16_follows.bind fun version run₂ hsize hrun₂ => ?_
  subst hrun₂
  refine .ite (fun hversion => .map ?_) fun hversion => .emit_bind (.pure hsize ?_)
  · refine header_follows hlength (isSupported_iff.mp hversion) ?_
    rw [Format.length_lengthBytes, ByteOrder.length_bytes]
  · refine ⟨rfl, mt isSupported_iff.mpr hversion, format, length.toNat, hlength, ?_⟩
    rw [List.append_nil]

theorem end_reads : Decode.cstring.Reads src pos [0] [] := by
  have hempty : (0 : UInt8) ∉ [] := List.not_mem_nil
  exact Decode.cstring_reads hempty

theorem directory_reads (p : RawPath) : directory.Reads src pos p.written (some p.text) := by
  apply (Decode.cstring_reads p.zeroFree).bind_last
  rw [p.isEmpty_bytes]
  exact .pure _

theorem file_reads (f : RawFile) : file.Reads src pos f.written (some f.entry) := by
  apply (Decode.cstring_reads f.path.zeroFree).bind
  rw [f.path.isEmpty_bytes, if_neg (by decide)]
  apply (Decode.uleb128_reads f.directory).bind
  apply (Decode.uleb128_reads f.time).discard.bind
  apply (Decode.uleb128_reads f.size).discard.bind_last
  exact Decode.Reads.bind_nil (.emit _) (.pure _)

theorem directories_reads (paths : List RawPath) :
    (Decode.collect directory).Reads src pos (paths.flatMap (·.written) ++ [0])
      (paths.map (·.text)) :=
  Decode.collect_reads (by simp [RawPath.written]) (fun p _ _ => directory_reads p) (by simp)
    (fun _ => end_reads.bind_last (.pure _))

theorem files_reads (files : List RawFile) :
    (Decode.collect file).Reads src pos (files.flatMap (·.written) ++ [0])
      (files.map (·.entry)) :=
  Decode.collect_reads (by simp [RawFile.written, RawPath.written]) (fun f _ _ => file_reads f)
    (by simp) (fun _ => end_reads.bind_last (.pure _))

theorem maximumOperations_reads {version : UInt16} {n : UInt8} (h : version < 4 → n = 1) :
    (if 4 ≤ version then Decode.u8 else pure 1).Reads src pos (if 4 ≤ version then [n] else [])
      n := by
  split
  · exact Decode.u8_reads n
  · rw [h (UInt16.not_le.mp ‹_›)]
    exact .pure 1

theorem header_reads {h : LineHeader} {isStatement : UInt8} {directories : List RawPath}
    {files : List RawFile} (hfits : h.format.FitsOffset h.headerLength)
    (hmaximum : h.version < 4 → h.maximumOperations = 1)
    (hopcodes : h.opcodeLengths.length = h.opcodeBase.toNat - 1)
    (hstatement : h.defaultIsStatement = decide (isStatement ≠ 0))
    (hdirectories : h.directories = directories.map (·.text))
    (hfiles : h.files = files.map (·.entry)) (hstart : h.headerStart = pos + h.format.offsetSize)
    (hconsumed : h.consumed = (h.bodyBytes isStatement directories files).length) :
    (header h.offset h.format h.length h.version).Reads src pos
      (h.format.offsetBytes src.order h.headerLength ++
        h.bodyBytes isStatement directories files) h := by
  unfold header LineHeader.bodyBytes
  apply (Decode.offset_reads hfits).bind
  apply Decode.Reads.bind_nil .position
  apply (Decode.u8_reads h.minimumInstructionLength).bind
  refine .ite_bind (maximumOperations_reads hmaximum) ?_
  apply (Decode.u8_reads isStatement).bind
  apply (Decode.i8_reads h.lineBase.toUInt8).bind
  apply (Decode.u8_reads h.lineRange).bind
  apply (Decode.u8_reads h.opcodeBase).bind
  apply (Decode.take_reads hopcodes).bind
  apply (directories_reads directories).bind
  apply (files_reads files).bind_last
  refine Decode.Reads.bind_nil .position (.pure_of ?_)
  have hend : h.headerStart + h.consumed =
      pos + h.format.offsetSize + (h.bodyBytes isStatement directories files).length := by
    rw [hstart, hconsumed]
  simp only [LineHeader.bodyBytes, List.length_append, Format.length_offsetBytes,
    ← Nat.add_assoc] at hend ⊢
  rw [← hend, ← hstart, Nat.add_sub_cancel_left, ← hstatement, ← hdirectories, ← hfiles,
    Int8.toInt8_toUInt8]

theorem decode_reads {run : List UInt8} {table : LineTable}
    (h : table.WrittenAs src.order pos run) : decode.Reads src pos run table := by
  unfold decode
  cases table with
  | unsupported offset version =>
    obtain ⟨rfl, hversion, format, length, hlength, rfl⟩ := h
    apply Decode.Reads.bind_nil .position
    apply (Decode.initialLength_reads hlength).bind
    apply (Decode.u16_reads version).bind_last
    rw [if_neg (mt isSupported_iff.mp hversion)]
    exact Decode.Reads.bind_nil (.emit _) (.pure _)
  | supported h =>
    obtain ⟨rfl, hlength, hversion, hfits, hstart, hmaximum, hopcodes, hend, isStatement,
      directories, files, hstatement, hdirectories, hfiles, rfl⟩ := h
    have hlen : Decode.initialLength.Reads src h.offset _ _ := Decode.initialLength_reads hlength
    rw [UInt64.ofNat_toNat] at hlen
    apply Decode.Reads.bind_nil .position
    apply hlen.bind
    apply (Decode.u16_reads h.version).bind
    rw [if_pos (isSupported_iff.mpr hversion)]
    simp only [List.length_append, Format.length_lengthBytes, ByteOrder.length_bytes,
      Format.length_offsetBytes] at hend ⊢
    refine (header_reads hfits hmaximum hopcodes hstatement hdirectories hfiles hstart ?_).map rfl
    omega

/-- A table is decoded from a header as it is written, to exactly the fields and tables that stand
there, or from a version without a known layout, and from nothing else. Otherwise the section is too
short. -/
theorem accepts_exactly_headers (src : Source) {pos : ℕ} (hpos : pos ≤ src.bytes.size) :
    decode.Parses src pos (WrittenAs src.order pos) ∧
    ∀ e, (decode src pos).result = .error e → src.Overrun e := by
  constructor
  · exact decode_follows.parses fun _ _ => decode_reads
  · exact fun e he => (decode_meets hpos).of_error he

/-- No opcode lengths, a directory, and a file whose path is not text and whose directory index is
padded; and a version whose layout is not known. -/
theorem accepts_exactly_headers_sample :
    (decode ⟨.lines, .little, ⟨#[9, 0, 0, 0, 0, 4, 0, 0, 0, 0, 0, 1, 2, 1, 0xfb, 14, 0,
      97, 0, 0, 0xff, 0, 0x81, 0, 7, 8, 0]⟩⟩ 1).result = .ok (.supported
        { offset := 1, format := .dwarf32, length := 0, version := 4, headerLength := 0,
          headerStart := 11, minimumInstructionLength := 1, maximumOperations := 2,
          defaultIsStatement := true, lineBase := -5, lineRange := 14, opcodeBase := 0,
          opcodeLengths := [], directories := ["a"], files := [⟨"\uFFFD", 1⟩],
          consumed := 16 }) ∧
    (decode ⟨.lines, .big, ⟨#[0, 0, 0, 0, 0, 5]⟩⟩ 0).result = .ok (.unsupported 0 5) := by
  constructor
  · have hparses := (accepts_exactly_headers ⟨.lines, .little, ⟨#[9, 0, 0, 0, 0, 4, 0, 0, 0, 0, 0,
      1, 2, 1, 0xfb, 14, 0, 97, 0, 0, 0xff, 0, 0x81, 0, 7, 8, 0]⟩⟩
      (show 1 ≤ _ by decide)).1
    refine ((hparses _ 27).mpr ⟨_, ⟨[9], [], (List.append_nil _).symm, rfl⟩, rfl, ?_⟩).1
    exact ⟨rfl, by decide, by decide, by decide, rfl, by decide, rfl, rfl, 1,
      [⟨[97], by decide, by decide⟩],
      [⟨⟨[0xff], by decide, by decide⟩, ⟨[1], 0⟩, ⟨[], 7⟩, ⟨[], 8⟩⟩], rfl, rfl, rfl, rfl⟩
  · have hparses := (accepts_exactly_headers ⟨.lines, .big, ⟨#[0, 0, 0, 0, 0, 5]⟩⟩
      (show 0 ≤ _ by decide)).1
    refine ((hparses _ 6).mpr ⟨_, ⟨[], [], (List.append_nil _).symm, rfl⟩, rfl, ?_⟩).1
    exact ⟨rfl, by decide, .dwarf32, 0, by decide, rfl⟩

end LineTable
end DwarfUnits
