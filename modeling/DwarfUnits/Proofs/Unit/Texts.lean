import DwarfUnits.Proofs.Bytes.Scalars
import DwarfUnits.Proofs.Grammar.LineTable
import DwarfUnits.Proofs.Unit.Root

/-! Texts that are reported: none has a zero character, and paths are not empty. -/
namespace DwarfUnits

def Text.ZeroFree (text : String) : Prop := Char.ofNat 0 ∉ text.toList

/-- What a directory or a file may be called. -/
structure Text.IsPath (text : String) : Prop where
  nonempty : text ≠ ""
  zeroFree : Text.ZeroFree text

theorem Text.isPath_ofBytes {bytes : List UInt8} (hne : bytes ≠ []) (hzero : 0 ∉ bytes) :
    Text.IsPath (Text.ofBytes bytes) :=
  ⟨Text.ofBytes_ne_empty hne, Text.zero_not_mem_ofBytes hzero⟩

theorem RawPath.isPath_text (p : RawPath) : Text.IsPath p.text :=
  Text.isPath_ofBytes p.nonempty p.zeroFree

/-- The directories and files of a line table have paths. -/
structure HavePaths (directories : List String) (files : List FileEntry) : Prop where
  directories : ∀ text ∈ directories, Text.IsPath text
  files : ∀ f ∈ files, Text.IsPath f.path

theorem LineHeader.WrittenAs.havePaths {order : ByteOrder} {pos : ℕ} {run : List UInt8}
    {h : LineHeader} (hwritten : h.WrittenAs order pos run) :
    HavePaths h.directories h.files := by
  obtain ⟨-, directories, files, -, hdirectories, hfiles, -⟩ := hwritten.parts
  rw [hdirectories, hfiles]
  constructor
  · intro text htext
    obtain ⟨p, -, rfl⟩ := List.mem_map.mp htext
    exact p.isPath_text
  · intro entry hentry
    obtain ⟨f, -, rfl⟩ := List.mem_map.mp hentry
    exact f.path.isPath_text

theorem AttributeValue.Names.zeroFree {s : Sections} {value : AttributeValue} {name : String}
    (h : value.Names s name) (hvalue : ∀ bytes, value = .text bytes → 0 ∉ bytes) :
    Text.ZeroFree name := by
  cases h with
  | inline bytes => exact Text.zero_not_mem_ofBytes (hvalue bytes rfl)
  | tabled hzero _ => exact Text.zero_not_mem_ofBytes hzero

namespace RootAttributes

/-- Neither text that was found has a zero character. -/
structure ZeroFree (found : RootAttributes) : Prop where
  name : ∀ text ∈ found.name, Text.ZeroFree text
  compDir : ∀ text ∈ found.compDir, Text.ZeroFree text

theorem zeroFree_empty : empty.ZeroFree := ⟨by simp [empty], by simp [empty]⟩

variable {s : Sections} {src : Source} {pos : ℕ}

theorem Collected.zeroFree {unit : UnitHeader} {order : ByteOrder} {specs : List AttributeSpec}
    {run : List UInt8} {values : List AttributeValue} {root : RootAttributes}
    (h : Collected s specs values empty root)
    (hsplits : unit.encoding.Splits order specs run values) : root.ZeroFree := by
  have hlast : ∀ (attr : UInt64) (after : Option String),
      LastOf (AttributeValue.Names s) (valuesOf attr specs values) none after →
      ∀ name ∈ after, Text.ZeroFree name := by
    intro attr after hafter name hname
    obtain rfl := Option.mem_def.mp hname
    obtain hnone | ⟨value, hmem, hnames⟩ := hafter.exists_of_some
    · cases hnone
    · refine hnames.zeroFree fun bytes hvalue => ?_
      exact hsplits.zero_not_mem (hvalue ▸ mem_of_mem_valuesOf hmem)
  exact ⟨hlast _ _ h.name, hlast _ _ h.compDir⟩

theorem decode_zeroFree (unit : UnitHeader) (specs : List AttributeSpec)
    (hpos : pos ≤ src.bytes.size) :
    (decode unit s specs src pos).Gives fun root _ => root.ZeroFree := by
  refine (decode_follows hpos).gives fun run root _ hroot => ?_
  obtain ⟨values, hsplits, hcollected⟩ := hroot
  exact hcollected.zeroFree hsplits

end RootAttributes

namespace UnitRecord

/-- The texts of a record are such that they can be shown. -/
structure ZeroFree (record : UnitRecord) : Prop where
  name : ∀ text ∈ record.name, Text.ZeroFree text
  compDir : ∀ text ∈ record.compDir, Text.ZeroFree text
  lineTable : ∀ table ∈ record.lineTable, HavePaths table.directories table.files

variable {s : Sections}

theorem decodeTable_yields (strictness : Strictness) :
    (decodeTable strictness).Yields fun table => HavePaths table.directories table.files := by
  have hdecode : LineTable.decode.Yields
      fun table => ∀ header, table = .supported header → HavePaths header.directories header.files := by
    rintro src pos table htable header rfl
    obtain ⟨run, -, -, hwritten⟩ := LineTable.decode_follows.of_ok htable
    exact hwritten.havePaths
  unfold decodeTable
  refine hdecode.bind_of ?_
  rintro (header | ⟨offset, version⟩) hpaths
  · exact .bind fun _ => .pure (hpaths header rfl)
  · exact .pure ⟨by simp, by simp⟩

theorem decodeLines_yields (strictness : Strictness) (lineOffset : Option UInt64) :
    (lineOffset.mapM fun offset =>
      s.decodeAt .lines offset.toNat (decodeTable strictness) : Decode _).Yields
      fun lineTable => ∀ table ∈ lineTable, HavePaths table.directories table.files := by
  cases lineOffset with
  | none => exact .pure (by simp)
  | some offset =>
    refine (Decode.Yields.decodeAt (decodeTable_yields strictness)).map_of fun table h => ?_
    rintro _ ⟨⟩
    exact h

variable {src : Source} {pos : ℕ}

theorem decodeRoot_zeroFree (header : UnitHeader) (hpos : pos ≤ src.bytes.size) :
    (decodeRoot s header src pos).Gives fun root _ => root.ZeroFree := by
  unfold decodeRoot
  refine .ite (fun _ => RootAttributes.zeroFree_empty) fun _ => ?_
  refine (Decode.decodeAt_gives .abbrevs _ (Declaration.decodeRoot header)).bind ?_
  rintro declaration _ ⟨-, rfl⟩
  exact RootAttributes.decode_zeroFree header declaration.specs hpos

theorem decode_zeroFree (strictness : Strictness) (hpos : pos ≤ src.bytes.size) :
    (decode s strictness src pos).Gives fun (_, record) _ => record.ZeroFree := by
  unfold decode
  refine (UnitHeader.decode_meets hpos).gives.bind fun header next hheader => .emit_bind ?_
  refine (decodeRoot_zeroFree header hheader.2.2.2).bind fun root p hroot => ?_
  refine ((decodeLines_yields strictness root.lineOffset).gives src p).bind ?_
  exact fun lineTable _ hlineTable => ⟨hroot.name, hroot.compDir, hlineTable⟩

end UnitRecord
end DwarfUnits
