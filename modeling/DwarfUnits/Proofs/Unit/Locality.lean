import DwarfUnits.Proofs.Decode.Locality
import DwarfUnits.Proofs.Unit.Bounds

/-! The structures of a unit are decoded alike wherever their bytes stand, and in sections that have
grown. -/
namespace DwarfUnits

/-- Every section that a unit refers to may have more bytes at its end, and a string table that was
absent may be there. -/
structure Sections.Grows (s s' : Sections) : Prop where
  order : s'.order = s.order
  abbrevs : ∃ more, s'.abbrevs = s.abbrevs ++ more
  lines : ∃ more, s'.lines = s.lines ++ more
  strings : ∀ bytes, s.strings = some bytes → ∃ more, s'.strings = some (bytes ++ more)
  lineStrings : ∀ bytes, s.lineStrings = some bytes → ∃ more, s'.lineStrings = some (bytes ++ more)

namespace Sections.Grows

variable {s s' : Sections}

theorem of_info {info info' : ByteArray} :
    Grows { s with info := info } { s with info := info' } where
  order := rfl
  abbrevs := ⟨.empty, ByteArray.append_empty.symm⟩
  lines := ⟨.empty, ByteArray.append_empty.symm⟩
  strings bytes h := ⟨.empty, by rw [ByteArray.append_empty]; exact h⟩
  lineStrings bytes h := ⟨.empty, by rw [ByteArray.append_empty]; exact h⟩

theorem refl (s : Sections) : s.Grows s := of_info

theorem get? (h : s.Grows s') {id : SectionId} (hid : id ≠ .info) {bytes : ByteArray}
    (hbytes : s.get? id = some bytes) : ∃ more, s'.get? id = some (bytes ++ more) := by
  cases id with
  | info => exact absurd rfl hid
  | abbrevs =>
    obtain rfl := Option.some.inj hbytes
    obtain ⟨more, hmore⟩ := h.abbrevs
    exact ⟨more, congrArg some hmore⟩
  | lines =>
    obtain rfl := Option.some.inj hbytes
    obtain ⟨more, hmore⟩ := h.lines
    exact ⟨more, congrArg some hmore⟩
  | strings => exact h.strings bytes hbytes
  | lineStrings => exact h.lineStrings bytes hbytes
  | _ => cases hbytes

end Sections.Grows

namespace Decode

variable {α : Type} {s s' : Sections} {k : ℕ}

theorem decodeAt_carries (hs : s.Grows s') {id : SectionId} (hid : id ≠ .info) (offset : ℕ)
    {d d' : Decode α} (hd : d.Carries 0 d') :
    (s.decodeAt id offset d).Carries k (s'.decodeAt id offset d') := by
  intro src pos hpos
  cases hbytes : s.get? id with
  | none =>
    have hsource : s.source id = .error (.missingSection id) := by simp [Sections.source, hbytes]
    simp [Outcome.Meets, Sections.decodeAt, elsewhere, hsource]
  | some bytes =>
    refine decodeAt_meets hbytes (fun _ => trivial) fun hle => ?_
    refine (hd ⟨id, s.order, bytes⟩ offset hle).imp ?_
    rintro a next ⟨run, hholds, -, hreads⟩
    obtain ⟨more, hmore⟩ := hs.get? hid hbytes
    have hsource : s'.source id = .ok (Source.extend ⟨id, s.order, bytes⟩ more) := by
      simp [Sections.source, hmore, hs.order, Source.extend]
    have hrun : s'.Holds id offset run :=
      ⟨_, hsource, hholds.within (Source.within_extend _ more)⟩
    refine Repeats.of_nil hpos fun src' => decodeAt_reads hrun fun other hother => ?_
    obtain rfl := Except.ok.inj (hsource.symm.trans hother)
    exact hreads _ rfl

end Decode

variable {k : ℕ}

namespace UnitHeader

/-- The header of the same unit, written `n` bytes further on. -/
def moved (h : UnitHeader) (n : ℕ) : UnitHeader := { h with offset := h.offset + n }

theorem skipExtra_carries (format : Format) (kind : UInt8) :
    (skipExtra format kind).Carries k (skipExtra format kind) := by
  unfold skipExtra
  refine .ite (fun _ => Decode.skip_carries 8) fun _ => ?_
  refine .ite (fun _ => ?_) fun _ => .pure ()
  exact (Decode.skip_carries 8).bind fun _ => (Decode.offset_carries format).discard

theorem layout_carries (format : Format) (version : UInt16) :
    (layout format version).Carries k (layout format version) := by
  unfold layout
  refine .ite (fun _ => ?_) fun _ => ?_
  · exact (Decode.offset_carries format).bind fun _ => Decode.u8_carries.bind fun _ => .pure _
  · refine Decode.u8_carries.bind fun kind => Decode.u8_carries.bind fun _ => ?_
    refine (Decode.offset_carries format).bind fun _ => ?_
    exact (skipExtra_carries format kind).bind fun _ => .pure _

/-- Elsewhere a header is the same but for its offset, as long as the end of its unit fits. -/
theorem decode_repeats {src : Source} {pos : ℕ} (hpos : pos ≤ src.bytes.size) :
    (decode src pos).Gives fun header next => header.next + k < offsetLimit →
      decode.Repeats src pos k next (header.moved k) := by
  unfold decode
  rw [Decode.position_bind]
  refine (Decode.initialLength_carries (k := k) src pos hpos).bind ?_
  rintro ⟨length, format⟩ p₁ h₁
  refine .ite (fun _ => trivial) fun _ => ?_
  refine (Decode.u16_carries (k := k) src p₁ h₁.bounds.2).bind fun version p₂ h₂ => ?_
  refine (layout_carries (k := k) format version src p₂ h₂.bounds.2).bind ?_
  rintro ⟨kind, abbrevOffset, addressSize⟩ p₃ h₃
  refine (Decode.uleb128_carries (k := k) src p₃ h₃.bounds.2).bind fun code p₄ h₄ => ?_
  intro hlimit
  have hfits : ¬offsetLimit ≤ pos + k + extentOf format length := by
    have hnext : pos + extentOf format length + k < offsetLimit := hlimit
    omega
  refine (Decode.Repeats.position hpos).bind (h₁.bind ?_)
  dsimp only
  rw [if_neg hfits]
  exact h₂.bind (h₃.bind (h₄.bind (.pure h₄.bounds.2 _)))

theorem decode_carries : decode.Carries 0 decode := by
  intro src pos hpos
  refine ((decode_meets hpos).and (decode_repeats (k := 0) hpos)).gives.imp ?_
  rintro header next ⟨⟨-, hlimit, -⟩, hrepeats⟩
  exact hrepeats hlimit

end UnitHeader

theorem AttributeSpec.decode_carries : decode.Carries k decode := by
  unfold decode
  refine Decode.uleb128_carries.bind fun attr => Decode.uleb128_carries.bind fun form => ?_
  refine .ite (fun _ => .pure none) fun _ => .bind ?_ fun _ => .pure _
  unfold decodeConstant
  exact .ite (fun _ => Decode.sleb128_carries.map) fun _ => .pure none

theorem Declaration.decodeRoot_carries (unit : UnitHeader) (n : ℕ) :
    (decodeRoot unit).Carries k (decodeRoot (unit.moved n)) := by
  unfold decodeRoot
  refine Decode.uleb128_carries.bind fun code => .ite (fun _ => .fail) fun _ => ?_
  refine Decode.uleb128_carries.bind fun tag => Decode.u8_carries.bind fun children => ?_
  refine (Decode.collect_carries AttributeSpec.decode_carries fun src => ?_).bind fun _ => .pure _
  exact AttributeSpec.decode_advances.mono (by decide) fun _ _ => trivial

theorem Form.skip_carries (layout : Layout) : layout.skip.Carries k layout.skip := by
  cases layout with
  | fixed width => exact Decode.skip_carries width
  | leb128 => exact Decode.uleb128_carries.discard
  | cstring => exact Decode.cstring_carries.discard
  | counted width => exact (Decode.word_carries width).bind fun n => Decode.skip_carries n
  | lebCounted => exact Decode.uleb128_carries.bind fun n => Decode.skip_carries n.toNat

namespace AttributeValue

theorem decodeForm_carries (unit : UnitHeader) (n : ℕ) (form : Form) :
    (decodeForm unit form).Carries k (decodeForm (unit.moved n) form) := by
  have hsame : decodeForm (unit.moved n) form = decodeForm unit form := by cases form <;> rfl
  rw [hsame]
  unfold decodeForm
  split
  · exact Decode.cstring_carries.map
  · exact (Decode.offset_carries _).map
  · exact (Decode.offset_carries _).map
  · exact (Decode.offset_carries _).map
  · exact Decode.u32_carries.map.map
  · exact Decode.u64_carries.map
  · exact (Form.skip_carries _).bind fun _ => .pure untracked

theorem decodeCode_carries (unit : UnitHeader) (n : ℕ) (attr code : UInt64) :
    (decodeCode unit attr code).Carries k (decodeCode (unit.moved n) attr code) := by
  unfold decodeCode
  split
  · exact decodeForm_carries unit n _
  · exact .fail

theorem decode_carries (unit : UnitHeader) (n : ℕ) (attr code : UInt64) :
    (decode unit attr code).Carries k (decode (unit.moved n) attr code) := by
  unfold decode
  refine .ite (fun _ => ?_) fun _ => decodeCode_carries unit n attr code
  refine Decode.uleb128_carries.bind fun actual => .ite (fun _ => .fail) fun _ => ?_
  exact decodeCode_carries unit n attr actual

end AttributeValue

namespace RootAttributes

variable {s s' : Sections}

theorem text_carries (hs : s.Grows s') (unit : UnitHeader) (n : ℕ) (spec : AttributeSpec)
    {value : AttributeValue} (hvalue : value.Tabled) :
    (text unit s spec value).Carries k (text (unit.moved n) s' spec value) := by
  cases value with
  | text bytes => exact .pure _
  | textAt table offset =>
    have hinfo : table ≠ .info := by
      rintro rfl
      obtain h | h := hvalue <;> cases h
    dsimp only [text]
    cases hbytes : s.get? table with
    | none => exact .fail
    | some bytes =>
      obtain ⟨more, hmore⟩ := hs.get? hinfo hbytes
      rw [if_neg (by simp), if_neg (by simp [hmore])]
      exact (Decode.decodeAt_carries hs hinfo _ Decode.cstring_carries).map
  | offset n => exact .fail
  | untracked => exact .fail

theorem set_carries (hs : s.Grows s') (unit : UnitHeader) (n : ℕ) (spec : AttributeSpec)
    {value : AttributeValue} (hvalue : value.Tabled) (found : RootAttributes) :
    (set unit s spec value found).Carries k (set (unit.moved n) s' spec value found) := by
  have htext := text_carries (k := k) hs unit n spec hvalue
  unfold set
  refine .ite (fun _ => htext.bind fun _ => .pure _) fun _ => ?_
  refine .ite (fun _ => htext.bind fun _ => .pure _) fun _ => ?_
  refine .ite (fun _ => ?_) fun _ => .pure found
  split
  · exact .pure _
  · exact .fail

theorem step_carries (hs : s.Grows s') (unit : UnitHeader) (n : ℕ) (found : RootAttributes)
    (spec : AttributeSpec) :
    (step unit s found spec).Carries k (step (unit.moved n) s' found spec) := by
  unfold step
  refine (AttributeValue.decode_carries unit n spec.attr spec.form).bind_of
    (AttributeValue.decode_tabled unit spec.attr spec.form) fun value hvalue => ?_
  refine .position_bind fun p p' => .bind (.emit _ _) fun _ => ?_
  exact set_carries hs unit n spec hvalue found

theorem decode_carries (hs : s.Grows s') (unit : UnitHeader) (n : ℕ)
    (specs : List AttributeSpec) :
    (decode unit s specs).Carries k (decode (unit.moved n) s' specs) := by
  unfold decode
  generalize empty = found
  induction specs generalizing found with
  | nil => exact .pure found
  | cons spec specs ih =>
    rw [List.foldlM_cons, List.foldlM_cons]
    exact (step_carries hs unit n found spec).bind ih

end RootAttributes

namespace LineTable

theorem directory_carries : directory.Carries k directory := by
  unfold directory
  exact Decode.cstring_carries.bind fun _ => .pure _

theorem file_carries : file.Carries k file := by
  unfold file
  refine Decode.cstring_carries.bind fun bytes => .ite (fun _ => .pure none) fun _ => ?_
  refine Decode.uleb128_carries.bind fun _ => Decode.uleb128_carries.discard.bind fun _ => ?_
  refine Decode.uleb128_carries.discard.bind fun _ => ?_
  exact .bind (.emit _ _) fun _ => .pure _

/-- A header tells its own place, so it is the same only where it stands. -/
theorem header_carries (offset : ℕ) (format : Format) (length : UInt64) (version : UInt16) :
    (header offset format length version).Carries 0 (header offset format length version) := by
  have hdirectories : (Decode.collect directory).Carries 0 (Decode.collect directory) :=
    Decode.collect_carries directory_carries fun _ =>
      directory_advances.mono (Nat.le_refl _) fun _ _ => trivial
  have hfiles : (Decode.collect file).Carries 0 (Decode.collect file) :=
    Decode.collect_carries file_carries fun _ =>
      file_advances.mono (Nat.le_refl _) fun _ _ => trivial
  unfold header
  refine (Decode.offset_carries format).bind fun _ => Decode.Carries.position.bind fun _ => ?_
  refine Decode.u8_carries.bind fun _ => ?_
  refine .ite_bind (.ite (fun _ => Decode.u8_carries) fun _ => .pure 1) fun _ => ?_
  refine Decode.u8_carries.bind fun _ => Decode.i8_carries.bind fun _ => ?_
  refine Decode.u8_carries.bind fun _ => Decode.u8_carries.bind fun opcodeBase => ?_
  refine (Decode.take_carries _).bind fun _ => hdirectories.bind fun _ => hfiles.bind fun _ => ?_
  exact Decode.Carries.position.bind fun _ => .pure _

theorem decode_carries : decode.Carries 0 decode := by
  unfold decode
  refine Decode.Carries.position.bind fun offset => Decode.initialLength_carries.bind ?_
  rintro ⟨length, format⟩
  refine Decode.u16_carries.bind fun version => .ite (fun _ => ?_) fun _ => ?_
  · exact (header_carries offset format length version).map
  · exact .bind (.emit _ _) fun _ => .pure _

end LineTable
end DwarfUnits
