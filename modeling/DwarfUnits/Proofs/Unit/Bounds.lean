import DwarfUnits.Proofs.Decode.Bounds
import DwarfUnits.Walk

/-! The structures of a unit: the least that each takes, and every way in which it fails. -/
namespace DwarfUnits

variable {src : Source}

namespace UnitHeader

theorem skipExtra_advances (format : Format) (kind : UInt8) :
    (skipExtra format kind).Advances src 0 src.Overrun := by
  unfold skipExtra
  split
  · exact (Decode.skip_advances 8).weaken fun _ => id
  · split
    · exact ((Decode.skip_advances 8).bind fun _ =>
        (Decode.offset_advances format).discard).weaken fun _ => id
    · exact .pure _

theorem layout_advances (format : Format) (version : UInt16) :
    (layout format version).Advances src 5 src.Overrun := by
  have hsize : 4 ≤ format.offsetSize := by cases format <;> decide
  unfold layout
  split
  · refine ((Decode.offset_advances format).bind fun _ =>
      Decode.u8_advances.bind fun _ => .pure _).mono ?_ fun _ => id
    omega
  · refine (Decode.u8_advances.bind fun _ => Decode.u8_advances.bind fun _ =>
      (Decode.offset_advances format).bind fun _ =>
        (skipExtra_advances format _).bind fun _ => .pure _).mono ?_ fun _ => id
    omega

/-- An end of a unit at `offset` that 64 bits do not hold, whatever the format. -/
def Unending (offset : Nat) (e : Error) : Prop :=
  ∃ length, e = .malformedUnit offset length ∧ offsetLimit ≤ offset + 12 + length.toNat

theorem decode_meets {pos : Nat} (hpos : pos ≤ src.bytes.size) :
    (decode src pos).Meets
      (fun header next => header.offset = pos ∧ header.next < offsetLimit ∧
        pos + 12 ≤ next ∧ next ≤ src.bytes.size)
      (fun e _ => src.Overrun e ∨ Unending pos e) := by
  unfold decode
  rw [Decode.position_bind]
  refine ((Decode.initialLength_advances _ hpos).mono (fun _ _ h => h)
    (fun _ _ h => Or.inl h)).bind ?_
  rintro ⟨length, format⟩ next ⟨hnext, hsize⟩
  refine .ite (fun hlimit => ?_) (fun hlimit => ?_)
  · have hwidth : format.lengthSize ≤ 12 := by cases format <;> decide
    refine Or.inr ⟨length, rfl, Nat.le_trans hlimit ?_⟩
    unfold extentOf
    omega
  · refine ((Decode.u16_advances _ hsize).mono (fun _ _ h => h) (fun _ _ h => Or.inl h)).bind ?_
    rintro version next' ⟨hnext', hsize'⟩
    refine ((layout_advances format version _ hsize').mono (fun _ _ h => h)
      (fun _ _ h => Or.inl h)).bind ?_
    rintro ⟨kind, abbrevOffset, addressSize⟩ next'' ⟨hnext'', hsize''⟩
    refine ((Decode.uleb128_advances _ hsize'').mono (fun _ _ h => h)
      (fun _ _ h => Or.inl h)).bind ?_
    rintro rootCode last ⟨hlast, hend⟩
    refine ⟨rfl, Nat.lt_of_not_le hlimit, ?_, hend⟩
    change pos + 12 ≤ last
    omega

end UnitHeader

namespace AttributeSpec

theorem decode_advances : decode.Advances src 2 src.Overrun := by
  unfold decode
  refine Decode.uleb128_advances.bind fun attr => Decode.uleb128_advances.bind fun form =>
    .ite (fun _ => .pure _) fun _ => ?_
  refine Decode.Advances.bind ?_ fun _ => .pure _
  unfold decodeConstant
  exact .ite (fun _ => Decode.sleb128_advances.map.weaken fun _ => id)
    fun _ => .pure _

end AttributeSpec

/-- A declaration found where that of the root entry of `unit` should stand. -/
def UnitHeader.Mismatch (unit : UnitHeader) (e : Error) : Prop :=
  ∃ found, e = .abbrevMismatch unit.offset unit.abbrevOffset unit.rootCode found ∧
    found ≠ unit.rootCode

theorem Declaration.decodeRoot_advances (unit : UnitHeader) :
    (decodeRoot unit).Advances src 0 (fun e => src.Overrun e ∨ unit.Mismatch e) := by
  unfold decodeRoot
  refine (Decode.uleb128_advances.weaken fun _ => Or.inl).seq fun code => ?_
  refine .ite (fun hcode => .fail (Or.inr ⟨code, rfl, hcode⟩)) fun _ => ?_
  refine (Decode.uleb128_advances.bind fun tag => Decode.u8_advances.bind fun children =>
    (Decode.collect_advances AttributeSpec.decode_advances (by decide)).bind fun specs =>
      .pure _).weaken fun _ => Or.inl

theorem Form.skip_advances (layout : Layout) : layout.skip.Advances src 0 src.Overrun := by
  have hcount : ∀ {d : Decode Unit} {n : Nat}, d.Advances src n src.Overrun →
      d.Advances src 0 src.Overrun := fun h => h.weaken fun _ => id
  cases layout with
  | fixed width => exact hcount (Decode.skip_advances width)
  | leb128 => exact hcount Decode.uleb128_advances.discard
  | cstring => exact hcount Decode.cstring_advances.discard
  | counted width => exact hcount ((Decode.word_advances width).bind fun n =>
      hcount (Decode.skip_advances n))
  | lebCounted => exact hcount (Decode.uleb128_advances.bind fun n =>
      hcount (Decode.skip_advances n.toNat))

/-- A form of an attribute of `unit` that has no value there. -/
def UnitHeader.Unknown (unit : UnitHeader) (e : Error) : Prop :=
  ∃ attr form, e = .unknownForm unit.offset attr form

namespace AttributeValue

theorem decodeForm_advances (unit : UnitHeader) (form : Form) :
    (decodeForm unit form).Advances src 0 src.Overrun := by
  unfold decodeForm
  split
  · exact Decode.cstring_advances.map.weaken fun _ => id
  · exact (Decode.offset_advances _).map.weaken fun _ => id
  · exact (Decode.offset_advances _).map.weaken fun _ => id
  · exact (Decode.offset_advances _).map.weaken fun _ => id
  · exact Decode.u32_advances.map.map.weaken fun _ => id
  · exact Decode.u64_advances.map.weaken fun _ => id
  · exact (Form.skip_advances _).bind fun _ => .pure _

theorem decodeCode_advances (unit : UnitHeader) (attr code : UInt64) :
    (decodeCode unit attr code).Advances src 0 (fun e => src.Overrun e ∨ unit.Unknown e) := by
  unfold decodeCode
  split
  · exact (decodeForm_advances unit _).mono (Nat.le_refl _) fun _ => Or.inl
  · exact .fail (Or.inr ⟨attr, code, rfl⟩)

theorem decode_advances (unit : UnitHeader) (attr code : UInt64) :
    (decode unit attr code).Advances src 0 (fun e => src.Overrun e ∨ unit.Unknown e) := by
  unfold decode
  refine .ite (fun _ => ?_) fun _ => decodeCode_advances unit attr code
  refine (Decode.uleb128_advances.weaken fun _ => Or.inl).seq fun actual => ?_
  exact .ite (fun _ => .fail (Or.inr ⟨attr, actual, rfl⟩)) fun _ =>
    decodeCode_advances unit attr actual

/-- Only the two string tables are referred to. -/
def Tabled : AttributeValue → Prop
  | .textAt table _ => table = .strings ∨ table = .lineStrings
  | _ => True

theorem decodeForm_tabled (unit : UnitHeader) (form : Form) :
    (decodeForm unit form).Yields Tabled := by
  unfold decodeForm
  split
  · exact .map fun _ => trivial
  · exact .map fun _ => Or.inl rfl
  · exact .map fun _ => Or.inr rfl
  · exact .map fun _ => trivial
  · exact .map fun _ => trivial
  · exact .map fun _ => trivial
  · exact .bind fun _ => .pure trivial

theorem decodeCode_tabled (unit : UnitHeader) (attr code : UInt64) :
    (decodeCode unit attr code).Yields Tabled := by
  unfold decodeCode
  split
  · exact decodeForm_tabled unit _
  · exact .fail

theorem decode_tabled (unit : UnitHeader) (attr code : UInt64) :
    (decode unit attr code).Yields Tabled := by
  unfold decode
  exact .ite (.bind fun _ => .ite .fail (decodeCode_tabled unit attr _))
    (decodeCode_tabled unit attr code)

end AttributeValue

namespace LineTable

theorem directory_advances : directory.Advances src 1 src.Overrun := by
  unfold directory
  exact Decode.cstring_advances.bind fun _ => .pure _

theorem file_advances : file.Advances src 1 src.Overrun := by
  unfold file
  refine Decode.cstring_advances.bind fun bytes => .ite (fun _ => .pure _) fun _ => ?_
  refine (Decode.uleb128_advances.bind fun _ => Decode.uleb128_advances.discard.bind fun _ =>
    Decode.uleb128_advances.discard.bind fun _ => Decode.Advances.bind (.emit _) fun _ =>
      .pure _).weaken fun _ => id

/-- What a header says of its own place, whatever its tables hold. -/
theorem header_meets {offset pos : Nat} (format : Format) (length : UInt64) (version : UInt16)
    (hpos : pos ≤ src.bytes.size) :
    (header offset format length version src pos).Meets
      (fun h next => pos ≤ next ∧ next ≤ src.bytes.size ∧ h.offset = offset ∧
        h.version = version ∧ h.headerStart = pos + format.offsetSize ∧
        h.headerStart ≤ next ∧ h.consumed = next - h.headerStart)
      (fun e _ => src.Overrun e) := by
  unfold header
  refine (Decode.offset_meets format hpos).bind fun headerLength start hstart => ?_
  rw [Decode.position_bind]
  refine (Decode.u8_advances start hstart.2).bind fun minimum p₁ h₁ => ?_
  have hmaximum : (if 4 ≤ version then Decode.u8 else pure 1).Advances src 0 src.Overrun :=
    .ite (fun _ => Decode.u8_advances.weaken fun _ => id) fun _ => .pure 1
  refine .ite_bind (hmaximum p₁ h₁.2) fun maximum p₂ h₂ => ?_
  refine (Decode.u8_advances p₂ h₂.2).bind fun default p₃ h₃ => ?_
  refine (Decode.i8_advances p₃ h₃.2).bind fun lineBase p₄ h₄ => ?_
  refine (Decode.u8_advances p₄ h₄.2).bind fun lineRange p₅ h₅ => ?_
  refine (Decode.u8_advances p₅ h₅.2).bind fun opcodeBase p₆ h₆ => ?_
  refine (Decode.take_advances _ p₆ h₆.2).bind fun opcodeLengths p₇ h₇ => ?_
  refine (Decode.collect_advances directory_advances (by decide) p₇ h₇.2).bind
    fun directories p₈ h₈ => ?_
  refine (Decode.collect_advances file_advances (by decide) p₈ h₈.2).bind fun files p₉ h₉ => ?_
  rw [Decode.position_bind]
  refine ⟨?_, h₉.2, rfl, rfl, hstart.1, ?_, rfl⟩
  · change pos ≤ p₉
    omega
  · change start ≤ p₉
    omega

/-- A table names its own place. -/
theorem decode_meets {pos : Nat} (hpos : pos ≤ src.bytes.size) :
    (decode src pos).Meets
      (fun table next => pos ≤ next ∧ next ≤ src.bytes.size ∧ match table with
        | .supported h => h.offset = pos ∧ isSupported h.version ∧ h.headerStart ≤ next ∧
            h.consumed = next - h.headerStart
        | .unsupported offset version => offset = pos ∧ ¬isSupported version)
      (fun e _ => src.Overrun e) := by
  unfold decode
  rw [Decode.position_bind]
  refine (Decode.initialLength_advances pos hpos).bind fun (length, format) p₁ h₁ => ?_
  refine (Decode.u16_advances p₁ h₁.2).bind fun version p₂ h₂ => ?_
  refine .ite (fun hv => .map ?_) (fun hv => ?_)
  · refine (header_meets format length version h₂.2).mono (fun h next hh => ?_) fun _ _ => id
    obtain ⟨hle, hsize, hoffset, hversion, -, hstart, hconsumed⟩ := hh
    exact ⟨by omega, hsize, hoffset, hversion ▸ hv, hstart, hconsumed⟩
  · exact ⟨by change pos ≤ p₂; omega, h₂.2, rfl, hv⟩

end LineTable
end DwarfUnits
