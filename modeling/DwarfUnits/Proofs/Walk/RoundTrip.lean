import DwarfUnits.Proofs.Image.Unit
import DwarfUnits.Proofs.Walk.Steps

/-! A walk reports exactly the units that were written one after another. -/
namespace DwarfUnits

/-- The reports of units that start at `offset` and follow one another. -/
def UnitImage.records (order : ByteOrder) : ℕ → List UnitImage → List UnitRecord
  | _, [] => []
  | offset, u :: units =>
    u.record offset :: records order (offset + (u.encode order).length) units

theorem UnitImage.length_encode_pos (order : ByteOrder) (u : UnitImage) :
    0 < (u.encode order).length := by
  rw [encode, List.length_append, Format.length_lengthBytes]
  exact Nat.add_pos_left u.format.lengthSize_pos _

theorem Walker.unit_eq {w : Walker} {u : UnitImage} (h : u.Fits w.sections)
    (hinfo : w.source.Holds w.offset (u.encode w.sections.order))
    (hsize : w.sections.info.size < UnitHeader.offsetLimit) :
    w.unit = .ok (u.header w.sections.order w.offset, u.record w.offset) := by
  have hend : w.offset + (u.encode w.sections.order).length < UnitHeader.offsetLimit :=
    Nat.lt_of_le_of_lt hinfo.le_size hsize
  rw [UnitImage.encode_eq] at hinfo
  exact (UnitRecord.decode_reads w.strictness h rfl hend hinfo.left).1

/-- The rest of a walk, from where the units still to come are written. -/
theorem Walker.steps_encode {w : Walker} (before : List UInt8) {units : List UnitImage}
    (hopen : w.finished = false) (hoffset : before.length = w.offset)
    (hinfo : w.sections.info.data.toList =
      before ++ units.flatMap (·.encode w.sections.order))
    (hsize : w.sections.info.size < UnitHeader.offsetLimit)
    (hfits : ∀ u ∈ units, u.Fits w.sections) :
    w.steps.map WalkStep.item =
      (UnitImage.records w.sections.order w.offset units).map Except.ok := by
  have hlength := congrArg List.length hinfo
  rw [Array.length_toList, ByteArray.size_data, List.length_append, hoffset] at hlength
  -- On the units to come: each leaves the walker where the next one is written.
  induction units generalizing w before with
  | nil =>
    rw [steps_of_next_eq_none (next_eq_none_iff.mpr (Or.inr (Nat.le_of_eq hlength)))]
    rfl
  | cons u units ih =>
    rw [List.forall_mem_cons] at hfits
    rw [List.flatMap_cons] at hinfo hlength
    have hpos := u.length_encode_pos w.sections.order
    rw [List.length_append] at hlength
    have hholds : w.source.Holds w.offset (u.encode w.sections.order) :=
      ⟨before, _, by rw [List.append_assoc]; exact hinfo, hoffset⟩
    have hunit := unit_eq hfits.1 hholds hsize
    obtain ⟨t, ht, hitem, hw⟩ := next_of_ok hopen (by omega) hunit
    have hextent : (u.header w.sections.order w.offset).extent =
        (u.encode w.sections.order).length := UnitImage.extent_header _ hfits.1.length
    rw [hextent] at hw
    rw [steps_of_next_eq_some ht, List.map_cons, hitem, hw, UnitImage.records, List.map_cons]
    congr 1
    refine ih (w := { w with offset := w.offset + (u.encode w.sections.order).length })
      (before ++ u.encode w.sections.order) hopen ?_ ?_ hsize hfits.2 ?_
    · rw [List.length_append, hoffset]
    · rw [List.append_assoc]
      exact hinfo
    · rw [Nat.add_assoc]
      exact hlength

/-- Units written one after another, in either byte order and with everything that they refer to,
are what either kind of walk reports: one record for each, in order. -/
theorem walk_encode (s : Sections) (strictness : Strictness) (units : List UnitImage)
    (hinfo : s.info.data.toList = units.flatMap (·.encode s.order))
    (hsize : s.info.size < 2 ^ 64) (hfits : ∀ u ∈ units, u.Fits s) :
    (walk s strictness).1 = .ok { units := UnitImage.records s.order 0 units } :=
  walk_ok_iff.mpr (Walker.steps_encode (w := Walker.start s strictness) [] rfl rfl hinfo hsize
    hfits)

/-! A small image: a version 4 unit with three attributes to report and a skeleton unit. -/
namespace Sample

def digit (d : Fin 128) : Leb := ⟨[], d⟩

def table : LineTableImage where
  format := .dwarf32
  length := 21
  version := 3
  body :=
    { minimumInstructionLength := 1, maximumOperations := 1, defaultIsStatement := 1
      lineBase := 0xfb, lineRange := 14, opcodeBase := 2, opcodeLengths := [1]
      directories := [⟨⟨"d", by decide⟩, by decide⟩]
      files := [⟨⟨⟨"f", by decide⟩, by decide⟩, digit 1, digit 0, digit 0⟩]
      opcodeLengths_length := rfl }
  length_lt := by decide
  body_fits := by decide

def root : EntryImage where
  code := ⟨[1], 0⟩
  declared := digit 1
  tag := digit 0x11
  children := 0
  attributes :=
    [ { content := .name .inline ⟨"a", by decide⟩, attr := digit 0x03, form := digit 0x08
        indirect := none, constant := digit 0
        attr_value := rfl, form_value := rfl, indirect_value := by simp },
      { content := .lineTable .secOffset 0 table, attr := digit 0x10, form := digit 0x17
        indirect := none, constant := digit 0
        attr_value := rfl, form_value := rfl, indirect_value := by simp },
      { content := .other 0x13 0x05 [0x0c, 0] (by decide), attr := digit 0x13, form := digit 0x05
        indirect := none, constant := digit 0
        attr_value := rfl, form_value := rfl, indirect_value := by simp },
      { content := .compDir (.strings 1) ⟨"/", by decide⟩, attr := digit 0x1b, form := digit 0x0e
        indirect := some (digit 0x16), constant := digit 0
        attr_value := rfl, form_value := rfl
        indirect_value := by
          rintro l ⟨⟩
          exact ⟨rfl, by decide⟩ } ]
  endAttr := digit 0
  endForm := digit 0
  code_ne := by decide
  declared_value := rfl
  endAttr_value := rfl

def compileUnit : UnitImage :=
  { format := .dwarf32, version := 4, addressSize := 8, kind := 0, signature := 0, typeOffset := 0
    abbrevOffset := 0, root := .entry root, trailing := [0] }

def skeletonUnit : UnitImage :=
  { format := .dwarf64, version := 5, addressSize := 4, kind := 4, signature := 7, typeOffset := 0
    abbrevOffset := 0, root := .absent (digit 0) rfl, trailing := [] }

def sections : Sections where
  order := .little
  info := ⟨#[23, 0, 0, 0, 4, 0, 0, 0, 0, 0, 8, 0x81, 0, 97, 0, 0, 0, 0, 0, 12, 0, 14, 1, 0, 0, 0, 0,
    255, 255, 255, 255, 21, 0, 0, 0, 0, 0, 0, 0, 5, 0, 4, 4, 0, 0, 0, 0, 0, 0, 0, 0,
    7, 0, 0, 0, 0, 0, 0, 0, 0]⟩
  abbrevs := ⟨#[1, 0x11, 0, 0x03, 0x08, 0x10, 0x17, 0x13, 0x05, 0x1b, 0x16, 0, 0]⟩
  lines := ⟨#[21, 0, 0, 0, 3, 0, 15, 0, 0, 0, 1, 1, 0xfb, 14, 2, 1, 100, 0, 0, 102, 0, 1, 0, 0, 0]⟩
  strings := some ⟨#[0, 47, 0]⟩
  lineStrings := none

theorem compileUnit_fits : compileUnit.Fits sections where
  length := by decide
  abbrevOffset := by decide
  root := by
    refine ⟨⟨_, rfl, [], [], rfl, rfl⟩, ?_⟩
    have htable : Format.dwarf32.FitsOffset 0 := by decide
    have hdir : Format.dwarf32.FitsOffset 1 := by decide
    simp only [root, List.forall_mem_cons]
    refine ⟨trivial, ⟨htable, _, rfl, [], [], rfl, rfl⟩, .fixed (by decide), ?_, by simp⟩
    exact ⟨hdir, _, rfl, [0], [], rfl, rfl⟩

theorem skeletonUnit_fits : skeletonUnit.Fits sections where
  length := by decide
  abbrevOffset := by decide
  root := trivial

end Sample

theorem walk_encode_sample :
    (walk Sample.sections .strict).1 = .ok { units := [
      { offset := 0, version := 4, abbrevOffset := 0, addressSize := 8, name := some "a"
        compDir := some "/"
        lineTable := some { offset := 0, version := 3, status := .decoded, directories := ["d"]
                            files := [⟨"f", 1⟩] } },
      { offset := 27, version := 5, abbrevOffset := 0, addressSize := 4, name := none
        compDir := none, lineTable := none }] } := by
  refine walk_encode Sample.sections .strict [Sample.compileUnit, Sample.skeletonUnit] rfl
    (by decide) ?_
  simp only [List.forall_mem_cons]
  exact ⟨Sample.compileUnit_fits, Sample.skeletonUnit_fits, by simp⟩

end DwarfUnits
