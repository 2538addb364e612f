import DwarfUnits.Proofs.Grammar.Root
import DwarfUnits.Proofs.Unit.Bounds

/-! Root entries: the values that stand in one, and which of them places the line table. -/
namespace DwarfUnits

variable {s : Sections} {src : Source} {pos : Nat}

/-- The values of `specs` from `pos` on, one after another. -/
inductive AttributeValue.Follow (unit : UnitHeader) (src : Source) :
    Nat → List AttributeSpec → List AttributeValue → Prop
  | nil {pos : Nat} : Follow unit src pos [] []
  | cons {pos : Nat} {spec : AttributeSpec} {specs : List AttributeSpec} {value : AttributeValue}
      {values : List AttributeValue}
      (h : (AttributeValue.decode unit spec.attr spec.form src pos).result = .ok value)
      (hrest : Follow unit src (AttributeValue.decode unit spec.attr spec.form src pos).position
        specs values) : Follow unit src pos (spec :: specs) (value :: values)

/-- Decoding in another section leaves the position in this one. -/
theorem Decode.decodeAt_gives {α : Type} (id : SectionId) (offset : Nat) (d : Decode α) :
    (s.decodeAt id offset d src pos).Gives
      fun a next => s.run id offset d = .ok a ∧ next = pos := by
  have hposition : (s.decodeAt id offset d src pos).position = pos := by
    unfold Sections.decodeAt elsewhere
    split
    · rfl
    · split <;> rfl
  refine (Outcome.Gives.self _).imp ?_
  rintro a next ⟨hresult, rfl⟩
  rw [decodeAt_result] at hresult
  exact ⟨hresult, hposition⟩

namespace RootAttributes

variable {unit : UnitHeader} {specs : List AttributeSpec} {values : List AttributeValue}

theorem valuesOf_ne_nil_iff {attr : UInt64}
    (h : AttributeValue.Follow unit src pos specs values) :
    valuesOf attr specs values ≠ [] ↔ ∃ spec ∈ specs, spec.attr = attr := by
  induction h with
  | nil => simp [valuesOf]
  | @cons _ spec _ _ _ _ _ ih =>
    rw [valuesOf_cons, List.exists_mem_cons_iff, ← ih]
    by_cases hspec : spec.attr = attr
    · rw [valuesOf_of_eq hspec]
      simp [hspec]
    · rw [valuesOf_of_ne (by simpa using hspec)]
      simp [hspec]

/-- Segments that stand one after another are decoded one after another. -/
theorem follow_of_splits {run : List UInt8}
    (h : unit.encoding.Splits src.order specs run values) (hholds : src.Holds pos run) :
    AttributeValue.Follow unit src pos specs values := by
  induction h generalizing pos with
  | nil => exact .nil
  | @cons spec specs run rest value values hvalue hvalues ih =>
    obtain ⟨hresult, hnext⟩ := AttributeValue.decode_reads spec.attr hvalue hholds.left
    refine .cons hresult ?_
    rw [hnext]
    exact ih hholds.right

theorem Collected.map_lineOffset {root : RootAttributes}
    (h : Collected s specs values empty root) :
    root.lineOffset.map AttributeValue.offset =
      (valuesOf lineOffsetCode specs values).getLast? := by
  obtain ⟨offsets, hoffsets, hroot⟩ := h.lineOffset
  have hvalues : valuesOf lineOffsetCode specs values = offsets.map AttributeValue.offset := by
    rw [← List.forall₂_map_right_iff, List.forall₂_eq_eq_eq] at hoffsets
    exact hoffsets
  have hlast : root.lineOffset = offsets.getLast? := hroot.trans (Option.or_none ..)
  rw [hlast, hvalues, List.getLast?_map]

theorem decode_gives (specs : List AttributeSpec) (hpos : pos ≤ src.bytes.size) :
    (decode unit s specs src pos).Gives fun root _ =>
      ∃ values, AttributeValue.Follow unit src pos specs values ∧
        root.lineOffset.map AttributeValue.offset =
          (valuesOf lineOffsetCode specs values).getLast? := by
  refine (decode_follows hpos).gives fun run root hholds hroot => ?_
  obtain ⟨values, hsplits, hcollected⟩ := hroot
  exact ⟨values, follow_of_splits hsplits hholds, hcollected.map_lineOffset⟩

end RootAttributes

/-- The declaration and the values of the root entry of a unit whose header ends at `pos`. -/
structure UnitHeader.HasRoot (s : Sections) (src : Source) (pos : Nat) (header : UnitHeader)
    (declaration : Declaration) (values : List AttributeValue) : Prop where
  declared :
    s.run .abbrevs header.abbrevOffset.toNat (Declaration.decodeRoot header) = .ok declaration
  follow : AttributeValue.Follow header src pos declaration.specs values

theorem UnitRecord.decodeRoot_gives (header : UnitHeader) (hpos : pos ≤ src.bytes.size) :
    (decodeRoot s header src pos).Gives fun root _ =>
      (header.rootCode = 0 → root = RootAttributes.empty) ∧
      (header.rootCode ≠ 0 → ∃ declaration values, header.HasRoot s src pos declaration values ∧
        root.lineOffset.map AttributeValue.offset =
          (RootAttributes.valuesOf RootAttributes.lineOffsetCode declaration.specs
            values).getLast?) := by
  unfold decodeRoot
  refine .ite (fun hzero => ⟨fun _ => rfl, absurd hzero⟩) fun hcode => ?_
  refine (Decode.decodeAt_gives .abbrevs _ (Declaration.decodeRoot header)).bind ?_
  rintro declaration _ ⟨hdeclared, rfl⟩
  refine (RootAttributes.decode_gives declaration.specs hpos).imp ?_
  rintro root _ ⟨values, hvalues, hroot⟩
  have hdescribed : header.HasRoot s src _ declaration values := ⟨hdeclared, hvalues⟩
  exact ⟨fun hzero => absurd hzero hcode, fun _ => ⟨declaration, values, hdescribed, hroot⟩⟩

end DwarfUnits
