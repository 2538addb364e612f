import DwarfUnits.Proofs.Grammar.Basic
import DwarfUnits.Proofs.Unit.Bounds

/-! Declarations of root entries as they are written, and that nothing else is taken for one. -/
namespace DwarfUnits

/-- A spec as it is written. Only the form whose values stand in declarations is followed by one. -/
structure SpecImage where
  attr : Leb
  form : Leb
  constant : Option Leb
  attr_ne : attr.value ≠ 0
  constant_iff : constant.isSome ↔ form.value = 0x21

namespace SpecImage

def bytes (i : SpecImage) : List UInt8 :=
  i.attr.bytes ++ (i.form.bytes ++ (i.constant.map Leb.bytes).getD [])

def spec (i : SpecImage) : AttributeSpec where
  attr := i.attr.value
  form := i.form.value
  constant := i.constant.map fun l => Int64.ofInt l.integer

end SpecImage

/-- A declaration as it is written. An attribute of zero and a form of any value close its specs. -/
structure DeclarationImage where
  code : Leb
  tag : Leb
  children : UInt8
  specs : List SpecImage
  endAttr : Leb
  endForm : Leb
  endAttr_value : endAttr.value = 0

namespace DeclarationImage

def bytes (i : DeclarationImage) : List UInt8 :=
  i.code.bytes ++ (i.tag.bytes ++ ([i.children] ++
    (i.specs.flatMap SpecImage.bytes ++ (i.endAttr.bytes ++ i.endForm.bytes))))

def declaration (i : DeclarationImage) : Declaration where
  code := i.code.value
  tag := i.tag.value
  hasChildren := i.children ≠ 0
  specs := i.specs.map SpecImage.spec

end DeclarationImage

variable {src : Source} {pos : ℕ}

namespace AttributeSpec

/-- An attribute of zero, and a form that is not followed by a constant whatever it is. -/
def Closes (run : List UInt8) : Prop :=
  ∃ attr form : Leb, attr.value = 0 ∧ run = attr.bytes ++ form.bytes

theorem decodeConstant_follows (form : UInt64) (hpos : pos ≤ src.bytes.size) :
    (decodeConstant form).Follows src pos fun run constant =>
      ∃ c : Option Leb, (c.isSome ↔ form = 0x21) ∧ run = (c.map Leb.bytes).getD [] ∧
        constant = c.map fun l => Int64.ofInt l.integer := by
  unfold decodeConstant
  refine .ite (fun hform => .map ?_) fun hform => .pure hpos ⟨none, ?_, rfl, rfl⟩
  · refine Decode.sleb128_follows.imp fun run n _ hrun => ?_
    obtain ⟨l, rfl, rfl⟩ := hrun
    exact ⟨some l, iff_of_true rfl hform, rfl, rfl⟩
  · exact iff_of_false (by simp) hform

theorem decodeConstant_reads {form : UInt64} {c : Option Leb} (h : c.isSome ↔ form = 0x21) :
    (decodeConstant form).Reads src pos ((c.map Leb.bytes).getD [])
      (c.map fun l => Int64.ofInt l.integer) := by
  have hcode : c.isSome ↔ form = Form.implicitConst.code := h
  unfold decodeConstant
  cases c with
  | none =>
    rw [if_neg (by simpa using hcode)]
    exact .pure none
  | some l =>
    rw [if_pos (by simpa using hcode)]
    exact (Decode.sleb128_reads l).map (congrArg some l.signed_bytes)

theorem decode_follows :
    decode.Follows src pos (Decode.Element Closes SpecImage.bytes SpecImage.spec) := by
  unfold decode
  refine Decode.uleb128_follows.bind fun attr run₁ _ hrun₁ => ?_
  refine Decode.uleb128_follows.bind fun form run₂ hsize hrun₂ => ?_
  obtain ⟨a, rfl, rfl⟩ := hrun₁
  obtain ⟨f, rfl, rfl⟩ := hrun₂
  refine .ite (fun hzero => .pure hsize ⟨a, f, hzero, ?_⟩) fun hne => .bind_pure ?_
  · rw [List.append_nil]
  · refine (decodeConstant_follows f.value hsize).imp fun run₃ constant _ hrun₃ => ?_
    obtain ⟨c, hform, rfl, rfl⟩ := hrun₃
    exact ⟨⟨a, f, c, hne, hform⟩, rfl, rfl⟩

theorem decode_reads (i : SpecImage) : decode.Reads src pos i.bytes (some i.spec) := by
  unfold decode
  refine (Decode.uleb128_reads i.attr).bind ((Decode.uleb128_reads i.form).bind ?_)
  rw [if_neg i.attr_ne]
  exact (decodeConstant_reads i.constant_iff).map rfl

theorem decode_reads_end {run : List UInt8} (h : Closes run) : decode.Reads src pos run none := by
  obtain ⟨attr, form, hzero, rfl⟩ := h
  unfold decode
  refine (Decode.uleb128_reads attr).bind ((Decode.uleb128_reads form).bind_last ?_)
  rw [if_pos hzero]
  exact .pure none

end AttributeSpec

namespace SpecImage

theorem bytes_ne_nil (i : SpecImage) : i.bytes ≠ [] := by simp [bytes, Leb.bytes_ne_nil]

end SpecImage

namespace Declaration

/-- `run` is a declaration with the code of the root entry of `unit`, as it is written. -/
def WrittenAs (unit : UnitHeader) (run : List UInt8) (d : Declaration) : Prop :=
  ∃ i : DeclarationImage, i.code.value = unit.rootCode ∧ run = i.bytes ∧ d = i.declaration

variable {unit : UnitHeader}

theorem decodeRoot_follows : (decodeRoot unit).Follows src pos (WrittenAs unit) := by
  have hmoves : AttributeSpec.decode.Advances src 1 fun _ => True :=
    AttributeSpec.decode_advances.mono (by decide) fun _ _ => trivial
  unfold decodeRoot
  refine Decode.uleb128_follows.bind fun code run₁ _ hrun₁ => .ite (fun _ => .fail) fun hcode => ?_
  refine Decode.uleb128_follows.bind fun tag run₂ _ hrun₂ => ?_
  refine Decode.u8_follows.bind fun children run₃ hsize hrun₃ => .bind_pure ?_
  refine (Decode.collect_follows hmoves (fun _ => AttributeSpec.decode_follows) hsize).imp ?_
  rintro run₄ specs - ⟨images, rest, ⟨endAttr, endForm, hzero, rfl⟩, rfl, rfl⟩
  obtain ⟨c, rfl, rfl⟩ := hrun₁
  obtain ⟨t, rfl, rfl⟩ := hrun₂
  rw [hrun₃]
  exact ⟨⟨c, t, children, images, endAttr, endForm, hzero⟩, not_not.mp hcode, rfl, rfl⟩

theorem decodeRoot_reads {i : DeclarationImage} (hcode : i.code.value = unit.rootCode) :
    (decodeRoot unit).Reads src pos i.bytes i.declaration := by
  have hend (pos : ℕ) :
      AttributeSpec.decode.Reads src pos (i.endAttr.bytes ++ i.endForm.bytes) none :=
    AttributeSpec.decode_reads_end ⟨_, _, i.endAttr_value, rfl⟩
  unfold decodeRoot
  apply (Decode.uleb128_reads i.code).bind
  rw [if_neg (not_not.mpr hcode)]
  refine (Decode.uleb128_reads i.tag).bind ((Decode.u8_reads i.children).bind ?_)
  refine (Decode.collect_reads (fun spec _ => spec.bytes_ne_nil)
    (fun spec _ _ => AttributeSpec.decode_reads spec) ?_ hend).map rfl
  simp [Leb.bytes_ne_nil]

/-- A complete code other than that of the root entry is refused, whatever stands after it. -/
theorem decodeRoot_of_ne {code : Leb} (hholds : src.Holds pos code.bytes)
    (hne : code.value ≠ unit.rootCode) :
    (decodeRoot unit src pos).result =
      .error (.abbrevMismatch unit.offset unit.abbrevOffset unit.rootCode code.value) := by
  have hread := Decode.uleb128_reads code hholds
  unfold decodeRoot
  rw [Decode.bind_ok hread.1, if_pos hne]
  rfl

theorem decodeRoot_fails (hpos : pos ≤ src.bytes.size) :
    (decodeRoot unit src pos).Meets (fun _ _ => True) fun e _ =>
      src.Overrun e ∨ ∃ code : Leb, src.Holds pos code.bytes ∧ code.value ≠ unit.rootCode ∧
        e = .abbrevMismatch unit.offset unit.abbrevOffset unit.rootCode code.value := by
  unfold decodeRoot
  have hcode := (Decode.uleb128_advances pos hpos).and Decode.uleb128_follows
  refine (hcode.mono (fun _ _ h => h) fun _ _ h => Or.inl h.1).bind ?_
  rintro code next ⟨⟨-, hsize⟩, run, hholds, rfl, l, rfl, rfl⟩
  refine .ite (fun hne => Or.inr ⟨l, hholds, hne, rfl⟩) fun _ => ?_
  exact ((Decode.uleb128_advances.bind fun tag => Decode.u8_advances.bind fun children =>
    (Decode.collect_advances AttributeSpec.decode_advances (by decide)).bind fun specs =>
      .pure _) _ hsize).mono (fun _ _ _ => trivial) fun _ _ => Or.inl

/-- What a declaration tells of its specs: none of them closes the list, and constants stand with the
one form that has them. -/
theorem WrittenAs.specs {run : List UInt8} {d : Declaration} (h : WrittenAs unit run d) :
    ∀ spec ∈ d.specs, spec.attr ≠ 0 ∧ (spec.constant.isSome ↔ spec.form = 0x21) := by
  obtain ⟨i, -, -, rfl⟩ := h
  intro spec hspec
  obtain ⟨image, -, rfl⟩ := List.mem_map.mp hspec
  refine ⟨image.attr_ne, ?_⟩
  rw [SpecImage.spec, Option.isSome_map]
  exact image.constant_iff

/-- The declaration of a root entry is decoded from the bytes of one that has its code, to exactly
what is written there, and from nothing else. Another complete code is refused as such, which the
code alone decides; otherwise the section is too short. -/
theorem accepts_exactly_declarations (unit : UnitHeader) (src : Source) {pos : ℕ}
    (hpos : pos ≤ src.bytes.size) :
    (decodeRoot unit).Parses src pos (WrittenAs unit) ∧
    (∀ d, (decodeRoot unit src pos).result = .ok d → d.code = unit.rootCode ∧
      ∀ spec ∈ d.specs, spec.attr ≠ 0 ∧ (spec.constant.isSome ↔ spec.form = 0x21)) ∧
    (∀ unitOffset abbrevOffset expected found, (decodeRoot unit src pos).result =
        .error (.abbrevMismatch unitOffset abbrevOffset expected found) ↔
      unitOffset = unit.offset ∧ abbrevOffset = unit.abbrevOffset ∧ expected = unit.rootCode ∧
        found ≠ unit.rootCode ∧ ∃ code : Leb, src.Holds pos code.bytes ∧ code.value = found) ∧
    ∀ e, (decodeRoot unit src pos).result = .error e →
      (∃ found, e = .abbrevMismatch unit.offset unit.abbrevOffset unit.rootCode found) ∨
        src.Overrun e := by
  refine ⟨decodeRoot_follows.parses ?_, fun d hok => ?_, fun unitOffset abbrevOffset expected found =>
    ⟨fun herror => ?_, ?_⟩, fun e he => ?_⟩
  · rintro run d ⟨i, hcode, rfl, rfl⟩
    exact decodeRoot_reads hcode
  · obtain ⟨run, -, -, hwritten⟩ := decodeRoot_follows.of_ok hok
    refine ⟨?_, hwritten.specs⟩
    obtain ⟨i, hcode, -, rfl⟩ := hwritten
    exact hcode
  · obtain ⟨_, _, hoverrun, -⟩ | ⟨code, hholds, hne, hsame⟩ :=
      (decodeRoot_fails hpos).of_error herror
    · cases hoverrun
    · obtain ⟨rfl, rfl, rfl, rfl⟩ := Error.abbrevMismatch.inj hsame
      exact ⟨rfl, rfl, rfl, hne, code, hholds, rfl⟩
  · rintro ⟨rfl, rfl, rfl, hne, code, hholds, rfl⟩
    exact decodeRoot_of_ne hholds hne
  · obtain hoverrun | ⟨code, -, -, hsame⟩ := (decodeRoot_fails hpos).of_error he
    · exact Or.inr hoverrun
    · exact Or.inl ⟨code.value, hsame⟩

/-- Numbers that are longer than they need to be, a constant in the declaration, and the form of a
constant where the specs end; then a code that is not that of the root. -/
theorem accepts_exactly_declarations_sample :
    (decodeRoot ⟨5, .dwarf32, 30, 4, none, 7, 8, 1⟩ ⟨.abbrevs, .little,
      ⟨#[9, 0x81, 0, 0x11, 1, 0x03, 0x08, 0x8b, 0, 0x21, 0x7e, 0, 0x21, 0x7e]⟩⟩ 1).result =
        .ok ⟨1, 0x11, true, [⟨0x03, 0x08, none⟩, ⟨0x0b, 0x21, some (-2)⟩]⟩ ∧
    (decodeRoot ⟨5, .dwarf32, 30, 4, none, 7, 8, 1⟩ ⟨.abbrevs, .big, ⟨#[9, 0x82, 0]⟩⟩ 1).result =
      .error (.abbrevMismatch 5 7 1 2) := by
  constructor
  · exact (((accepts_exactly_declarations _ _ (by decide)).1 _ _).mpr ⟨_, ⟨[9], [0x7e], rfl, rfl⟩, rfl,
      ⟨⟨[1], 0⟩, ⟨[], 0x11⟩, 1,
        [⟨⟨[], 0x03⟩, ⟨[], 0x08⟩, none, by decide, by decide⟩,
          ⟨⟨[0x0b], 0⟩, ⟨[], 0x21⟩, some ⟨[], 0x7e⟩, by decide, by decide⟩],
        ⟨[], 0⟩, ⟨[], 0x21⟩, rfl⟩, rfl, rfl, rfl⟩).1
  · exact ((accepts_exactly_declarations _ _ (by decide)).2.2.1 _ _ _ _).mpr
      ⟨rfl, rfl, rfl, by decide, ⟨[2], 0⟩, ⟨[9], [], rfl, rfl⟩, rfl⟩

end Declaration
end DwarfUnits
