import DwarfUnits.Proofs.Grammar.Values
import Mathlib.Data.List.Forall2

/-! Root entries as they are written: one segment for each spec, of which the last of each tracked
attribute counts. -/
namespace DwarfUnits

/-- Each of `values` stands for something; `after` is what the last one does, or `before` if there
are none. -/
def LastOf {α β : Type} (R : α → β → Prop) (values : List α) (before after : Option β) : Prop :=
  ∃ results, List.Forall₂ R values results ∧ after = results.getLast?.or before

namespace LastOf

variable {α β : Type} {R : α → β → Prop} {value : α} {values more : List α} {before after : Option β}

@[simp] theorem nil_iff : LastOf R [] before after ↔ after = before := by
  simp [LastOf]

theorem cons_iff : LastOf R (value :: values) before after ↔
    ∃ b, R value b ∧ LastOf R values (some b) after := by
  have hlast (b : β) (results : List β) :
      (b :: results).getLast?.or before = results.getLast?.or (some b) := by
    rw [List.getLast?_cons, Option.some_or, Option.or_some]
  constructor
  · rintro ⟨results, hresults, rfl⟩
    obtain ⟨b, rest, hb, hrest, rfl⟩ := List.forall₂_cons_left_iff.mp hresults
    exact ⟨b, hb, rest, hrest, hlast b rest⟩
  · rintro ⟨b, hb, rest, hrest, rfl⟩
    exact ⟨b :: rest, .cons hb hrest, (hlast b rest).symm⟩

/-- What is there in the end is what the last value stands for, or was there before. -/
theorem exists_of_some {b : β} (h : LastOf R values before (some b)) :
    before = some b ∨ ∃ value ∈ values, R value b := by
  induction values generalizing before with
  | nil => exact Or.inl (nil_iff.mp h).symm
  | cons value values ih =>
    obtain ⟨b', hb', hrest⟩ := cons_iff.mp h
    obtain hsame | ⟨later, hlater, hb⟩ := ih hrest
    · obtain rfl := Option.some.inj hsame
      exact Or.inr ⟨value, List.mem_cons_self, hb'⟩
    · exact Or.inr ⟨later, List.mem_cons_of_mem _ hlater, hb⟩

theorem append_iff : LastOf R (values ++ more) before after ↔
    ∃ mid, LastOf R values before mid ∧ LastOf R more mid after := by
  induction values generalizing before with
  | nil => simp
  | cons value values ih =>
    simp only [List.cons_append, cons_iff, ih]
    constructor
    · rintro ⟨b, hb, mid, hmid, hafter⟩
      exact ⟨mid, ⟨b, hb, hmid⟩, hafter⟩
    · rintro ⟨mid, ⟨b, hb, hmid⟩, hafter⟩
      exact ⟨b, hb, mid, hmid, hafter⟩

end LastOf

/-- The text that a value is or refers to; one in a table ends at the first zero byte there. -/
inductive AttributeValue.Names (s : Sections) : AttributeValue → String → Prop where
  | inline (bytes : List UInt8) : Names s (.text bytes) (Text.ofBytes bytes)
  | tabled {table : SectionId} {offset : UInt64} {bytes : List UInt8} (hzero : 0 ∉ bytes)
      (h : s.Holds table offset.toNat (bytes ++ [0])) :
    Names s (.textAt table offset) (Text.ofBytes bytes)

namespace RootAttributes

/-- The values of an attribute, in order. -/
def valuesOf (attr : UInt64) (specs : List AttributeSpec) (values : List AttributeValue) :
    List AttributeValue :=
  ((specs.zip values).filter fun (spec, _) => spec.attr = attr).map Prod.snd

/-- Every value of a tracked attribute is one that it can have, and the last one of each is in
`root`; what has none is there as it was `found` before. -/
@[mk_iff] structure Collected (s : Sections) (specs : List AttributeSpec) (values : List AttributeValue)
    (found root : RootAttributes) : Prop where
  name : LastOf (AttributeValue.Names s) (valuesOf nameCode specs values) found.name root.name
  compDir :
    LastOf (AttributeValue.Names s) (valuesOf compDirCode specs values) found.compDir root.compDir
  lineOffset : LastOf (fun value n => value = .offset n) (valuesOf lineOffsetCode specs values)
    found.lineOffset root.lineOffset

variable {s : Sections} {src : Source} {pos : ℕ} {run : List UInt8} {unit : UnitHeader}
  {spec : AttributeSpec} {specs : List AttributeSpec} {value : AttributeValue}
  {values : List AttributeValue} {found after root : RootAttributes}

theorem mem_of_mem_valuesOf {attr : UInt64} (h : value ∈ valuesOf attr specs values) :
    value ∈ values := by
  obtain ⟨⟨spec, value⟩, hmem, rfl⟩ := List.mem_map.mp h
  exact (List.of_mem_zip (List.mem_of_mem_filter hmem)).2

theorem valuesOf_cons (attr : UInt64) :
    valuesOf attr (spec :: specs) (value :: values) =
      valuesOf attr [spec] [value] ++ valuesOf attr specs values := by
  by_cases h : spec.attr = attr <;> simp [valuesOf, h]

theorem valuesOf_of_eq {attr : UInt64} (h : spec.attr = attr) :
    valuesOf attr [spec] [value] = [value] := by
  simp [valuesOf, h]

theorem valuesOf_of_ne {attr : UInt64} (h : ∀ spec ∈ specs, spec.attr ≠ attr) :
    valuesOf attr specs values = [] := by
  rw [valuesOf, List.map_eq_nil_iff, List.filter_eq_nil_iff]
  rintro ⟨spec, value⟩ hmem
  simpa using h spec (List.of_mem_zip hmem).1

/-- The first value is taken up before those of the rest. -/
theorem collected_cons_iff : Collected s (spec :: specs) (value :: values) found root ↔
    ∃ after, Collected s [spec] [value] found after ∧ Collected s specs values after root := by
  constructor
  · rintro ⟨hname, hcompDir, hlineOffset⟩
    rw [valuesOf_cons, LastOf.append_iff] at hname hcompDir hlineOffset
    obtain ⟨name, hname, hname'⟩ := hname
    obtain ⟨compDir, hcompDir, hcompDir'⟩ := hcompDir
    obtain ⟨lineOffset, hlineOffset, hlineOffset'⟩ := hlineOffset
    exact ⟨⟨name, compDir, lineOffset⟩, ⟨hname, hcompDir, hlineOffset⟩,
      ⟨hname', hcompDir', hlineOffset'⟩⟩
  · rintro ⟨after, h, h'⟩
    constructor
    · rw [valuesOf_cons, LastOf.append_iff]
      exact ⟨after.name, h.name, h'.name⟩
    · rw [valuesOf_cons, LastOf.append_iff]
      exact ⟨after.compDir, h.compDir, h'.compDir⟩
    · rw [valuesOf_cons, LastOf.append_iff]
      exact ⟨after.lineOffset, h.lineOffset, h'.lineOffset⟩

theorem collected_iff_of_name (h : spec.attr = nameCode) :
    Collected s [spec] [value] found after ↔
      ∃ name, value.Names s name ∧ after = { found with name := some name } := by
  have hcompDir : valuesOf compDirCode [spec] [value] = [] := valuesOf_of_ne (by simp [h]; decide)
  have hlineOffset : valuesOf lineOffsetCode [spec] [value] = [] :=
    valuesOf_of_ne (by simp [h]; decide)
  rw [collected_iff, valuesOf_of_eq h, hcompDir, hlineOffset]
  cases after
  simp only [LastOf.cons_iff, LastOf.nil_iff, mk.injEq, ← and_assoc, exists_and_right]

theorem collected_iff_of_compDir (h : spec.attr = compDirCode) :
    Collected s [spec] [value] found after ↔
      ∃ compDir, value.Names s compDir ∧ after = { found with compDir := some compDir } := by
  have hname : valuesOf nameCode [spec] [value] = [] := valuesOf_of_ne (by simp [h]; decide)
  have hlineOffset : valuesOf lineOffsetCode [spec] [value] = [] :=
    valuesOf_of_ne (by simp [h]; decide)
  rw [collected_iff, valuesOf_of_eq h, hname, hlineOffset]
  cases after
  simp only [LastOf.cons_iff, LastOf.nil_iff, mk.injEq]
  constructor
  · rintro ⟨rfl, ⟨compDir, hnames, rfl⟩, rfl⟩
    exact ⟨compDir, hnames, rfl, rfl, rfl⟩
  · rintro ⟨compDir, hnames, rfl, rfl, rfl⟩
    exact ⟨rfl, ⟨compDir, hnames, rfl⟩, rfl⟩

theorem collected_iff_of_lineOffset (h : spec.attr = lineOffsetCode) :
    Collected s [spec] [value] found after ↔
      ∃ n, value = .offset n ∧ after = { found with lineOffset := some n } := by
  have hname : valuesOf nameCode [spec] [value] = [] := valuesOf_of_ne (by simp [h]; decide)
  have hcompDir : valuesOf compDirCode [spec] [value] = [] := valuesOf_of_ne (by simp [h]; decide)
  rw [collected_iff, valuesOf_of_eq h, hname, hcompDir]
  cases after
  simp only [LastOf.cons_iff, LastOf.nil_iff, mk.injEq]
  constructor
  · rintro ⟨rfl, rfl, n, hvalue, rfl⟩
    exact ⟨n, hvalue, rfl, rfl, rfl⟩
  · rintro ⟨n, hvalue, rfl, rfl, rfl⟩
    exact ⟨rfl, rfl, n, hvalue, rfl⟩

/-- Attributes that a report does not need leave what was found. -/
theorem collected_iff_of_untracked
    (h : ∀ spec ∈ specs, spec.attr ∉ [nameCode, compDirCode, lineOffsetCode]) :
    Collected s specs values found root ↔ root = found := by
  have hname : valuesOf nameCode specs values = [] :=
    valuesOf_of_ne fun spec hspec heq => h spec hspec (by simp [heq])
  have hcompDir : valuesOf compDirCode specs values = [] :=
    valuesOf_of_ne fun spec hspec heq => h spec hspec (by simp [heq])
  have hlineOffset : valuesOf lineOffsetCode specs values = [] :=
    valuesOf_of_ne fun spec hspec heq => h spec hspec (by simp [heq])
  rw [collected_iff, hname, hcompDir, hlineOffset]
  cases root
  cases found
  simp

theorem text_follows (hpos : pos ≤ src.bytes.size) :
    (text unit s spec value).Follows src pos fun run name => run = [] ∧ value.Names s name := by
  have hunknown {form : UInt64} : (AttributeValue.unknown unit spec.attr form :
      Decode String).Follows src pos fun run name => run = [] ∧ value.Names s name := .fail
  cases value with
  | text bytes => exact .pure hpos ⟨rfl, .inline bytes⟩
  | textAt table offset =>
    refine .ite (fun _ => .fail) fun _ => .map ?_
    refine (Decode.decodeAt_follows hpos fun other => Decode.cstring_follows).imp ?_
    rintro run bytes - ⟨hrun, text, hholds, hzero, rfl⟩
    exact ⟨hrun, .tabled hzero hholds⟩
  | offset n => exact hunknown
  | untracked => exact hunknown

theorem text_reads {name : String} (h : value.Names s name) :
    (text unit s spec value).Reads src pos [] name := by
  cases h with
  | inline bytes => exact .pure _
  | tabled hzero hholds =>
    unfold text
    dsimp only
    rw [hholds.isNone_get?, if_neg (by decide)]
    exact (Decode.decodeAt_reads hholds fun other _ => Decode.cstring_reads hzero).map rfl

/-- What one value adds is kept, and takes nothing from the section. -/
theorem set_follows (hpos : pos ≤ src.bytes.size) :
    (set unit s spec value found).Follows src pos fun run after =>
      run = [] ∧ Collected s [spec] [value] found after := by
  unfold set
  refine .ite (fun h => ?_) fun hname => .ite (fun h => ?_) fun hcompDir => .ite (fun h => ?_)
    fun hlineOffset => .pure hpos ⟨rfl, ?_⟩
  · refine .bind_pure ((text_follows hpos).imp fun run name _ hrun => ?_)
    rw [collected_iff_of_name h]
    exact ⟨hrun.1, name, hrun.2, rfl⟩
  · refine .bind_pure ((text_follows hpos).imp fun run compDir _ hrun => ?_)
    rw [collected_iff_of_compDir h]
    exact ⟨hrun.1, compDir, hrun.2, rfl⟩
  · simp only [collected_iff_of_lineOffset h]
    cases value with
    | offset n => exact .pure hpos ⟨rfl, n, rfl, rfl⟩
    | text | textAt | untracked => exact .fail
  · rw [collected_iff_of_untracked]
    · simp [hname, hcompDir, hlineOffset]

theorem set_reads (h : Collected s [spec] [value] found after) :
    (set unit s spec value found).Reads src pos [] after := by
  unfold set
  by_cases hname : spec.attr = nameCode
  · obtain ⟨name, hnames, rfl⟩ := (collected_iff_of_name hname).mp h
    rw [if_pos hname]
    exact (text_reads hnames).bind_nil (.pure _)
  rw [if_neg hname]
  by_cases hcompDir : spec.attr = compDirCode
  · obtain ⟨compDir, hnames, rfl⟩ := (collected_iff_of_compDir hcompDir).mp h
    rw [if_pos hcompDir]
    exact (text_reads hnames).bind_nil (.pure _)
  rw [if_neg hcompDir]
  by_cases hlineOffset : spec.attr = lineOffsetCode
  · obtain ⟨n, rfl, rfl⟩ := (collected_iff_of_lineOffset hlineOffset).mp h
    rw [if_pos hlineOffset]
    exact .pure _
  · obtain rfl := (collected_iff_of_untracked (by simp [hname, hcompDir, hlineOffset])).mp h
    rw [if_neg hlineOffset]
    exact .pure _

theorem step_follows :
    (step unit s found spec).Follows src pos fun run after => ∃ value,
      unit.encoding.Segment src.order spec.form run value ∧
      Collected s [spec] [value] found after := by
  unfold step
  refine (AttributeValue.decode_follows spec.attr spec.form).bind fun value run hsize hrun => ?_
  refine .position_bind (.emit_bind ((set_follows hsize).imp fun rest after _ hrest => ?_))
  obtain ⟨rfl, hafter⟩ := hrest
  rw [List.append_nil]
  exact ⟨value, hrun, hafter⟩

theorem step_reads (hrun : unit.encoding.Segment src.order spec.form run value)
    (hafter : Collected s [spec] [value] found after) :
    (step unit s found spec).Reads src pos run after := by
  apply (AttributeValue.decode_reads spec.attr hrun).bind_last
  exact Decode.Reads.bind_nil .position (Decode.Reads.bind_nil (.emit _) (set_reads hafter))

/-- Entry by entry: a segment for each spec, each of which adds to what was found before it. -/
theorem foldlM_follows (specs : List AttributeSpec) (found : RootAttributes)
    (hpos : pos ≤ src.bytes.size) :
    (specs.foldlM (step unit s) found).Follows src pos fun run root => ∃ values,
      unit.encoding.Splits src.order specs run values ∧ Collected s specs values found root := by
  induction specs generalizing found pos with
  | nil =>
    refine .pure hpos ⟨[], .nil, ?_⟩
    rw [collected_iff_of_untracked (by simp)]
  | cons spec specs ih =>
    rw [List.foldlM_cons]
    refine step_follows.bind fun after run hsize hrun => ?_
    obtain ⟨value, hvalue, hafter⟩ := hrun
    refine (ih after hsize).imp fun rest root _ hrest => ?_
    obtain ⟨values, hvalues, hroot⟩ := hrest
    exact ⟨value :: values, .cons hvalue hvalues, collected_cons_iff.mpr ⟨after, hafter, hroot⟩⟩

theorem foldlM_reads (found : RootAttributes)
    (hrun : unit.encoding.Splits src.order specs run values)
    (hroot : Collected s specs values found root) :
    (specs.foldlM (step unit s) found).Reads src pos run root := by
  induction hrun generalizing found pos with
  | nil =>
    obtain rfl := (collected_iff_of_untracked (by simp)).mp hroot
    exact .pure _
  | cons hvalue hvalues ih =>
    obtain ⟨after, hafter, hrest⟩ := collected_cons_iff.mp hroot
    rw [List.foldlM_cons]
    exact (step_reads hvalue hafter).bind (ih after hrest)

theorem decode_follows (hpos : pos ≤ src.bytes.size) :
    (decode unit s specs).Follows src pos fun run root => ∃ values,
      unit.encoding.Splits src.order specs run values ∧ Collected s specs values empty root :=
  foldlM_follows specs empty hpos

/-- The attributes of a root entry are decoded from one segment for each spec, in order, and from
nothing else: the end of the last segment is the end of what is read, and the last value of each
tracked attribute is kept. Without tracked attributes the segments alone decide. -/
theorem accepts_exactly_segments (unit : UnitHeader) (s : Sections) (specs : List AttributeSpec)
    (src : Source) {pos : ℕ} (hpos : pos ≤ src.bytes.size) :
    ((decode unit s specs).Parses src pos fun run root => ∃ values,
      unit.encoding.Splits src.order specs run values ∧ Collected s specs values empty root) ∧
    ((∀ spec ∈ specs, spec.attr ∉ [nameCode, compDirCode, lineOffsetCode]) →
      (decode unit s specs).Parses src pos fun run root =>
        (∃ values, unit.encoding.Splits src.order specs run values) ∧ root = empty) := by
  have hparses : (decode unit s specs).Parses src pos fun run root => ∃ values,
      unit.encoding.Splits src.order specs run values ∧ Collected s specs values empty root := by
    refine (decode_follows hpos).parses ?_
    rintro run root ⟨values, hrun, hroot⟩
    exact foldlM_reads empty hrun hroot
  refine ⟨hparses, fun huntracked => ?_⟩
  simpa only [collected_iff_of_untracked huntracked, exists_and_right] using hparses

/-- Of two names the one in a table counts, and the form of an offset stands before it; a block that
no report needs leaves nothing. -/
theorem accepts_exactly_segments_sample :
    (decode ⟨0, .dwarf32, 30, 4, none, 0, 8, 1⟩
      ⟨.little, ⟨#[]⟩, ⟨#[]⟩, ⟨#[]⟩, some ⟨#[120, 98, 0]⟩, none⟩
      [⟨0x03, 0x08, none⟩, ⟨0x03, 0x0e, none⟩, ⟨0x10, 0x16, none⟩]
      ⟨.info, .little, ⟨#[9, 97, 0, 1, 0, 0, 0, 0x97, 0, 5, 0, 0, 0]⟩⟩ 1).result =
        .ok ⟨some "b", none, some 5⟩ ∧
    (decode ⟨0, .dwarf32, 30, 4, none, 0, 8, 1⟩ ⟨.big, ⟨#[]⟩, ⟨#[]⟩, ⟨#[]⟩, none, none⟩
      [⟨0x02, 0x03, none⟩] ⟨.info, .big, ⟨#[0, 2, 7, 7]⟩⟩ 0).result = .ok empty := by
  constructor
  · have hparses := (accepts_exactly_segments ⟨0, .dwarf32, 30, 4, none, 0, 8, 1⟩
      ⟨.little, ⟨#[]⟩, ⟨#[]⟩, ⟨#[]⟩, some ⟨#[120, 98, 0]⟩, none⟩
      [⟨0x03, 0x08, none⟩, ⟨0x03, 0x0e, none⟩, ⟨0x10, 0x16, none⟩]
      ⟨.info, .little, ⟨#[9, 97, 0, 1, 0, 0, 0, 0x97, 0, 5, 0, 0, 0]⟩⟩ (show 1 ≤ _ by decide)).1
    have hsplits : Encoding.Splits .little ⟨.dwarf32, 4, 8⟩
        [⟨0x03, 0x08, none⟩, ⟨0x03, 0x0e, none⟩, ⟨0x10, 0x16, none⟩]
        ([97, 0] ++ ([1, 0, 0, 0] ++ (([0x97, 0] ++ [5, 0, 0, 0]) ++ [])))
        [.text [97], .textAt .strings 1, .offset 5] :=
      .cons (.direct (.text (by decide : (0 : UInt8) ∉ [97]))) <|
        .cons (.direct (.offset (by decide) rfl)) <|
        .cons (.indirect rfl (by decide : (⟨[0x17], 0⟩ : Leb).value ≠ 0x21)
          (.offset (by decide) rfl)) .nil
    have hholds : Sections.Holds ⟨.little, ⟨#[]⟩, ⟨#[]⟩, ⟨#[]⟩, some ⟨#[120, 98, 0]⟩, none⟩ .strings 1
        ([98] ++ [0]) := ⟨_, rfl, [120], [], rfl, rfl⟩
    refine ((hparses ⟨some "b", none, some 5⟩ 13).mpr
      ⟨_, ⟨[9], [], (List.append_nil _).symm, rfl⟩, rfl, _, hsplits,
      ⟨["a", "b"], ?_, rfl⟩, ⟨[], .nil, rfl⟩, ⟨[5], .cons rfl .nil, rfl⟩⟩).1
    exact .cons (.inline [97]) (.cons (.tabled (by decide : (0 : UInt8) ∉ [98]) hholds) .nil)
  · have hparses := (accepts_exactly_segments ⟨0, .dwarf32, 30, 4, none, 0, 8, 1⟩
      ⟨.big, ⟨#[]⟩, ⟨#[]⟩, ⟨#[]⟩, none, none⟩ [⟨0x02, 0x03, none⟩]
      ⟨.info, .big, ⟨#[0, 2, 7, 7]⟩⟩ (show 0 ≤ _ by decide)).2 (by decide)
    have hcode : (0x03, 2) ∈ Encoding.countedForms := by decide
    have hblock : Encoding.Writes .big ⟨.dwarf32, 4, 8⟩ 0x03
        (ByteOrder.big.bytes 2 2 ++ [7, 7]) :=
      .counted hcode (show [(7 : UInt8), 7].length < 256 ^ 2 by decide)
    have hsplits : Encoding.Splits .big ⟨.dwarf32, 4, 8⟩ [⟨0x02, 0x03, none⟩] ([0, 2, 7, 7] ++ [])
        [.untracked] := .cons (.direct hblock) .nil
    exact ((hparses _ 4).mpr ⟨_, ⟨[], [], (List.append_nil _).symm, rfl⟩, rfl, ⟨_, hsplits⟩, rfl⟩).1

end RootAttributes
end DwarfUnits
