import DwarfUnits.Proofs.Walk.Growth

/-! Units written after others are walked as if they stood alone. -/
namespace DwarfUnits

/-- The same sections with the units of another image. -/
def Sections.withInfo (s : Sections) (info : ByteArray) : Sections := { s with info }

variable {s : Sections} {strictness : Strictness} {a b : ByteArray}

namespace Walker

theorem start_shifted_append :
    (start (s.withInfo a) strictness).Shifted 0 (start (s.withInfo (a ++ b)) strictness) where
  grows := Sections.Grows.of_info
  within := Source.within_append .empty b rfl (by rw [ByteArray.empty_append]; rfl)
  strictness := rfl
  offset := rfl
  unfinished := rfl

theorem seek_shifted_append (offset : ℕ) :
    ((start (s.withInfo b) strictness).seek offset).Shifted a.size
      ((start (s.withInfo (a ++ b)) strictness).seek (a.size + offset)) where
  grows := Sections.Grows.of_info
  within := Source.within_append a .empty rfl (by rw [ByteArray.append_empty]; rfl)
  strictness := rfl
  offset := Nat.add_comm _ _
  unfinished := rfl

/-- A unit is the same after other units but for its offset, whatever they are. -/
theorem unit_append {offset : ℕ} {header : UnitHeader} {record : UnitRecord} (hle : offset ≤ b.size)
    (hunit : ((start (s.withInfo b) strictness).seek offset).unit = .ok (header, record))
    (hlimit : a.size + header.next < 2 ^ 64) :
    ((start (s.withInfo (a ++ b)) strictness).seek (a.size + offset)).unit =
      .ok (header.moved a.size, record.moved a.size) := by
  rw [Nat.add_comm] at hlimit
  exact (seek_shifted_append offset).unit_of_ok hle hunit hlimit

theorem steps_append {first second : List UnitRecord}
    (hfirst : (start (s.withInfo a) strictness).steps.map WalkStep.item = first.map .ok)
    (hend : (start (s.withInfo a) strictness).last.offset = a.size)
    (hsecond : (start (s.withInfo b) strictness).steps.map WalkStep.item = second.map .ok)
    (hlimit : a.size + (start (s.withInfo b) strictness).last.offset < 2 ^ 64) :
    (start (s.withInfo (a ++ b)) strictness).steps.map WalkStep.item =
        (first ++ second.map (·.moved a.size)).map .ok ∧
      (start (s.withInfo (a ++ b)) strictness).last.offset =
        a.size + (start (s.withInfo b) strictness).last.offset := by
  have hlimitA : (start (s.withInfo a) strictness).last.offset < UnitHeader.offsetLimit :=
    last_offset_lt (Nat.two_pow_pos 64)
  rw [Nat.add_comm] at hlimit
  have hshifted : (start (s.withInfo b) strictness).Shifted a.size
      ((start (s.withInfo (a ++ b)) strictness).seek a.size) := seek_shifted_append 0
  obtain ⟨hitemsA, hlastA⟩ := (start_shifted_append (b := b)).steps hfirst hlimitA
  obtain ⟨hitemsB, hlastB⟩ := hshifted.steps hsecond hlimit
  rw [hend, Nat.add_zero] at hitemsA hlastA
  -- Both images are behind the walker at the end of the second.
  have hdone : (((start (s.withInfo (a ++ b)) strictness).seek a.size).seek
      ((start (s.withInfo b) strictness).last.offset + a.size)).next = none := by
    have hsize : b.size ≤ (start (s.withInfo b) strictness).last.offset :=
      (last_of_ok rfl hsecond).2
    refine next_eq_none_iff.mpr (Or.inr ?_)
    change (a ++ b).size ≤ (start (s.withInfo b) strictness).last.offset + a.size
    rw [ByteArray.size_append]
    omega
  constructor
  · rw [hitemsA, hitemsB, steps_of_next_eq_none hdone]
    simp [UnitRecord.moved_zero]
  · rw [hlastA, hlastB, last_of_next_eq_none hdone]
    exact Nat.add_comm _ _

end Walker

/-- A walk over two images one after the other, of which the first ends with its last unit, tells
of the units of both, those of the second further on; no unit depends on what stands before it. -/
theorem walk_append (s : Sections) (strictness : Strictness) (a b : ByteArray) :
    (∀ first second : Report, (walk (s.withInfo a) strictness).1 = .ok first →
      (Walker.start (s.withInfo a) strictness).last.offset = a.size →
      (walk (s.withInfo b) strictness).1 = .ok second →
      a.size + (Walker.start (s.withInfo b) strictness).last.offset < 2 ^ 64 →
      (walk (s.withInfo (a ++ b)) strictness).1 =
          .ok { units := first.units ++ second.units.map (·.moved a.size) } ∧
        (Walker.start (s.withInfo (a ++ b)) strictness).last.offset =
          a.size + (Walker.start (s.withInfo b) strictness).last.offset) ∧
    ∀ offset header record, offset ≤ b.size →
      ((Walker.start (s.withInfo b) strictness).seek offset).unit = .ok (header, record) →
      a.size + header.next < 2 ^ 64 →
      ((Walker.start (s.withInfo (a ++ b)) strictness).seek (a.size + offset)).unit =
        .ok (header.moved a.size, record.moved a.size) := by
  constructor
  · intro first second hfirst hend hsecond hlimit
    rw [walk_ok_iff] at hfirst hsecond ⊢
    exact Walker.steps_append hfirst hend hsecond hlimit
  · intro offset header record hle hunit hlimit
    exact Walker.unit_append hle hunit hlimit

theorem walk_append_misdeclared :
    (walk (Sections.misdeclared.withInfo (Sections.misdeclared.info ++ Sections.misdeclared.info))
      .lenient).1 = .ok { units := [
        { offset := 0, version := 4, abbrevOffset := 0, addressSize := 8, name := none
          compDir := none
          lineTable := some { offset := 0, version := 2, status := .headerLengthMismatch 9 7
                              directories := [], files := [] } },
        { offset := 16, version := 4, abbrevOffset := 0, addressSize := 8, name := none
          compDir := none
          lineTable := some { offset := 0, version := 2, status := .headerLengthMismatch 9 7
                              directories := [], files := [] } }] } ∧
      ∃ header record, ((Walker.start (Sections.misdeclared.withInfo
        (Sections.misdeclared.info ++ Sections.misdeclared.info)) .lenient).seek 16).unit =
          .ok (UnitHeader.moved header 16, UnitRecord.moved record 16) := by
  have hwalk : (walk (Sections.misdeclared.withInfo Sections.misdeclared.info) .lenient).1 =
      .ok { units := [
        { offset := 0, version := 4, abbrevOffset := 0, addressSize := 8, name := none
          compDir := none
          lineTable := some { offset := 0, version := 2, status := .headerLengthMismatch 9 7
                              directories := [], files := [] } }] } := by
    decide +kernel
  have hlast : (Walker.start (Sections.misdeclared.withInfo Sections.misdeclared.info)
      .lenient).last.offset = 16 := by
    decide +kernel
  have hfits : Sections.misdeclared.info.size + (Walker.start
      (Sections.misdeclared.withInfo Sections.misdeclared.info) .lenient).last.offset < 2 ^ 64 := by
    rw [hlast]
    decide
  have hnext : (((Walker.start (Sections.misdeclared.withInfo Sections.misdeclared.info)
      .lenient).seek 0).unit.map fun unit => unit.1.next) = .ok 16 := by
    decide +kernel
  obtain ⟨happend, hunits⟩ := walk_append .misdeclared .lenient Sections.misdeclared.info
    Sections.misdeclared.info
  refine ⟨(happend _ _ hwalk hlast hwalk hfits).1, ?_⟩
  cases hunit : ((Walker.start (Sections.misdeclared.withInfo Sections.misdeclared.info)
      .lenient).seek 0).unit with
  | error e =>
    rw [hunit] at hnext
    cases hnext
  | ok unit =>
    rw [hunit] at hnext
    have hend : unit.1.next = 16 := Except.ok.inj hnext
    have hlimit : Sections.misdeclared.info.size + unit.1.next < 2 ^ 64 := by
      rw [hend]
      decide
    exact ⟨unit.1, unit.2, hunits 0 unit.1 unit.2 (Nat.zero_le _) hunit hlimit⟩

end DwarfUnits
