import DwarfUnits.Proofs.Grammar.Root

/-! String tables matter to a root entry only where a tracked text is a place in them. -/
namespace DwarfUnits

variable {s s' : Sections} {table : SectionId} {src : Source} {pos : ℕ}

/-- The same bytes in every section but `table`. -/
structure Sections.AgreeOff (table : SectionId) (s s' : Sections) : Prop where
  order : s'.order = s.order
  get? : ∀ id ≠ table, s'.get? id = s.get? id

theorem Sections.AgreeOff.decodeAt {α : Type} (h : s.AgreeOff table s') {id : SectionId}
    (hid : id ≠ table) (offset : ℕ) (d : Decode α) :
    s'.decodeAt id offset d = s.decodeAt id offset d := by
  have hsource : s'.source id = s.source id := by
    unfold Sections.source
    rw [h.order, h.get? id hid]
  unfold Sections.decodeAt
  rw [hsource]

namespace AttributeValue

/-- The string tables, each with the code of the form whose values are places in it. -/
def tableForms : List (SectionId × UInt64) := [(.strings, 0x0e), (.lineStrings, 0x1f)]

/-- The runs of bytes that are a place in `table` for a spec with a form code: an offset, with its
form before it if the spec leaves that open. -/
inductive Places (format : Format) (table : SectionId) (code : UInt64) : List UInt8 → Prop where
  | direct {offset : List UInt8} (hform : (table, code) ∈ tableForms)
      (h : offset.length = format.offsetSize) : Places format table code offset
  | indirect {form : Leb} {offset : List UInt8} (hcode : code = 0x16)
      (hform : (table, form.value) ∈ tableForms) (h : offset.length = format.offsetSize) :
    Places format table code (form.bytes ++ offset)

variable {order : ByteOrder} {code : UInt64} {run : List UInt8} {unit : UnitHeader}

theorem mem_tableForms_iff : (table, code) ∈ tableForms ↔
    table = .strings ∧ code = 0x0e ∨ table = .lineStrings ∧ code = 0x1f := by
  simp [tableForms]

theorem mem_tableForms_of_ofRun {offset : UInt64} (h : ofRun order code run = .textAt table offset) :
    (table, code) ∈ tableForms := by
  rw [mem_tableForms_iff]
  unfold ofRun at h
  split at h
  · cases h
  split at h
  · exact Or.inl ⟨(textAt.inj h).1.symm, ‹_›⟩
  split at h
  · exact Or.inr ⟨(textAt.inj h).1.symm, ‹_›⟩
  split at h <;> cases h

theorem exists_ofRun (hform : (table, code) ∈ tableForms) (order : ByteOrder) (run : List UInt8) :
    ∃ offset, ofRun order code run = .textAt table offset := by
  obtain ⟨rfl, rfl⟩ | ⟨rfl, rfl⟩ := mem_tableForms_iff.mp hform
  · exact ⟨_, rfl⟩
  · exact ⟨_, rfl⟩

theorem writes_iff_of_mem_tableForms (hform : (table, code) ∈ tableForms) :
    unit.encoding.Writes order code run ↔ run.length = unit.format.offsetSize := by
  constructor
  · intro h
    obtain ⟨f, hf, hspells⟩ := Form.exists_spells h
    obtain ⟨rfl, rfl⟩ | ⟨rfl, rfl⟩ := mem_tableForms_iff.mp hform
    · obtain rfl : Form.strp = f := Option.some.inj hf
      exact hspells
    · obtain rfl : Form.lineStrp = f := Option.some.inj hf
      exact hspells
  · intro h
    obtain ⟨rfl, rfl⟩ | ⟨rfl, rfl⟩ := mem_tableForms_iff.mp hform
    · exact .offset (by decide) h
    · exact .offset (by decide) h

/-- The places in a table are the segments that stand for one. -/
theorem places_iff : Places unit.format table code run ↔
    ∃ offset, unit.encoding.Segment order code run (.textAt table offset) := by
  constructor
  · rintro (⟨hform, h⟩ | ⟨rfl, hform, h⟩)
    · obtain ⟨offset, hoffset⟩ := exists_ofRun hform order run
      exact ⟨offset, hoffset ▸ .direct ((writes_iff_of_mem_tableForms hform).mpr h)⟩
    · rename_i form run
      have hne : form.value ≠ 0x21 := by
        obtain ⟨-, hvalue⟩ | ⟨-, hvalue⟩ := mem_tableForms_iff.mp hform <;> rw [hvalue] <;> decide
      obtain ⟨offset, hoffset⟩ := exists_ofRun hform order run
      exact ⟨offset, hoffset ▸ .indirect rfl hne ((writes_iff_of_mem_tableForms hform).mpr h)⟩
  · rintro ⟨offset, h⟩
    generalize hvalue : AttributeValue.textAt table offset = value at h
    cases h with
    | direct h =>
      have hform := mem_tableForms_of_ofRun hvalue.symm
      exact .direct hform ((writes_iff_of_mem_tableForms hform).mp h)
    | indirect hcode hne h =>
      have hform := mem_tableForms_of_ofRun hvalue.symm
      exact .indirect hcode hform ((writes_iff_of_mem_tableForms hform).mp h)

end AttributeValue

namespace RootAttributes

/-- The attributes whose value is a text that a report needs. -/
def NeedsText (attr : UInt64) : Prop := attr = nameCode ∨ attr = compDirCode

/-- A reference to `table` is reached from `pos` on, with `found` so far: the specs before it are
decoded without an error, and its offset is complete and ends at `next`. -/
inductive Reaches (unit : UnitHeader) (s : Sections) (src : Source) (table : SectionId) :
    RootAttributes → ℕ → List AttributeSpec → ℕ → Prop where
  | here {found : RootAttributes} {pos : ℕ} {spec : AttributeSpec} {specs : List AttributeSpec}
      {run : List UInt8} (hattr : NeedsText spec.attr)
      (hplaces : AttributeValue.Places unit.format table spec.form run) (hholds : src.Holds pos run) :
    Reaches unit s src table found pos (spec :: specs) (pos + run.length)
  | later {found after : RootAttributes} {pos next : ℕ} {spec : AttributeSpec}
      {specs : List AttributeSpec} (hspec : (step unit s found spec src pos).result = .ok after)
      (hrest : Reaches unit s src table after (step unit s found spec src pos).position specs next) :
    Reaches unit s src table found pos (spec :: specs) next

variable {unit : UnitHeader} {spec : AttributeSpec} {specs : List AttributeSpec}
  {value : AttributeValue} {found : RootAttributes} {run : List UInt8} {next : ℕ}

theorem text_of_agreeOff (h : s.AgreeOff table s') (hvalue : ∀ offset, value ≠ .textAt table offset) :
    text unit s' spec value = text unit s spec value := by
  cases value with
  | textAt other offset =>
    have hother : other ≠ table := fun heq => hvalue offset (heq ▸ rfl)
    unfold text
    dsimp only
    rw [h.get? other hother, h.decodeAt hother]
  | text | offset | untracked => rfl

theorem set_of_agreeOff (h : s.AgreeOff table s')
    (hvalue : NeedsText spec.attr → ∀ offset, value ≠ .textAt table offset) :
    set unit s' spec value found = set unit s spec value found := by
  unfold set
  by_cases hname : spec.attr = nameCode
  · rw [if_pos hname, if_pos hname, text_of_agreeOff h (hvalue (Or.inl hname))]
  rw [if_neg hname, if_neg hname]
  by_cases hcompDir : spec.attr = compDirCode
  · rw [if_pos hcompDir, if_pos hcompDir, text_of_agreeOff h (hvalue (Or.inr hcompDir))]
  · rw [if_neg hcompDir, if_neg hcompDir]

/-- A step does the same without `table` unless the value is a place in it that a report needs. -/
theorem step_of_agreeOff (h : s.AgreeOff table s')
    (hvalue : NeedsText spec.attr → ∀ offset,
      (AttributeValue.decode unit spec.attr spec.form src pos).result ≠ .ok (.textAt table offset)) :
    step unit s' found spec src pos = step unit s found spec src pos := by
  unfold step
  refine Decode.bind_congr_at rfl fun value hresult => ?_
  rw [set_of_agreeOff h fun hattr offset heq => hvalue hattr offset (heq ▸ hresult)]

/-- Spec by spec: up to the first reference to `table`, two runs do the same. -/
theorem foldlM_of_agreeOff (h : s.AgreeOff table s') (hpos : pos ≤ src.bytes.size)
    (hnone : ∀ next, ¬Reaches unit s src table found pos specs next) :
    specs.foldlM (step unit s') found src pos = specs.foldlM (step unit s) found src pos := by
  -- On the specs: a step that is the same leaves both runs at one place, with one thing found.
  induction specs generalizing found pos with
  | nil => rfl
  | cons spec specs ih =>
    have hstep : step unit s' found spec src pos = step unit s found spec src pos := by
      refine step_of_agreeOff h fun hattr offset hresult => ?_
      obtain ⟨run, hholds, -, hsegment⟩ :=
        (AttributeValue.decode_follows spec.attr spec.form).of_ok hresult
      exact hnone _ (.here hattr (AttributeValue.places_iff.mpr ⟨offset, hsegment⟩) hholds)
    rw [List.foldlM_cons, List.foldlM_cons]
    refine Decode.bind_congr_at hstep fun after hresult => ?_
    obtain ⟨run, hholds, hnext, -⟩ := step_follows.of_ok hresult
    exact ih (hnext ▸ hholds.le_size) fun next hnext => hnone next (.later hresult hnext)

/-- What a step does with the value that it has decoded. -/
theorem step_of_value (s : Sections) (found : RootAttributes)
    (h : (AttributeValue.decode unit spec.attr spec.form src pos).result = .ok value) :
    (step unit s found spec src pos).result = (set unit s spec value found src
        (AttributeValue.decode unit spec.attr spec.form src pos).position).result ∧
      (step unit s found spec src pos).position = (set unit s spec value found src
        (AttributeValue.decode unit spec.attr spec.form src pos).position).position := by
  unfold step
  rw [Decode.bind_ok h]
  exact ⟨rfl, rfl⟩

/-- A text that fails is a failure where a report needs it. -/
theorem set_of_text_eq_fail {e : Error} (hattr : NeedsText spec.attr)
    (h : text unit s spec value = Decode.fail e) : set unit s spec value found = Decode.fail e := by
  unfold set
  obtain hname | hcompDir := hattr
  · rw [if_pos hname, h]
    rfl
  · have hname : spec.attr ≠ nameCode := hcompDir ▸ by decide
    rw [if_neg hname, if_pos hcompDir, h]
    rfl

/-- A place in a table that is absent ends a step, just after its offset. -/
theorem step_of_absent (hattr : NeedsText spec.attr)
    (hplaces : AttributeValue.Places unit.format table spec.form run) (hholds : src.Holds pos run)
    (habsent : s.get? table = none) :
    (step unit s found spec src pos).result = .error (.missingStringTable unit.offset table) ∧
      (step unit s found spec src pos).position = pos + run.length := by
  obtain ⟨offset, hsegment⟩ := AttributeValue.places_iff.mp hplaces
  obtain ⟨hvalue, hnext⟩ := AttributeValue.decode_reads spec.attr hsegment hholds
  have htext : text unit s spec (.textAt table offset) =
      Decode.fail (.missingStringTable unit.offset table) := by
    unfold text
    dsimp only
    rw [habsent, Option.isNone_none, if_pos rfl]
  obtain ⟨hresult, hposition⟩ := step_of_value s found hvalue
  rw [hresult, hposition, hnext, set_of_text_eq_fail hattr htext]
  exact ⟨rfl, rfl⟩

theorem foldlM_of_absent (habsent : s.get? table = none)
    (h : Reaches unit s src table found pos specs next) :
    (specs.foldlM (step unit s) found src pos).result =
        .error (.missingStringTable unit.offset table) ∧
      (specs.foldlM (step unit s) found src pos).position = next := by
  induction h with
  | here hattr hplaces hholds =>
    obtain ⟨hresult, hnext⟩ := step_of_absent hattr hplaces hholds habsent
    rw [List.foldlM_cons, Decode.bind_error hresult]
    exact ⟨rfl, hnext⟩
  | later hspec _ ih =>
    rw [List.foldlM_cons, Decode.bind_ok hspec]
    exact ih

/-- A place in a table, or any other value, of an attribute that a report does not need is passed
over whatever the sections hold. -/
theorem step_of_untracked {value : AttributeValue}
    (hattr : spec.attr ∉ [nameCode, compDirCode, lineOffsetCode])
    (hsegment : unit.encoding.Segment src.order spec.form run value) (hholds : src.Holds pos run) :
    (step unit s found spec src pos).result = .ok found ∧
      (step unit s found spec src pos).position = pos + run.length := by
  have hcollected : Collected s [spec] [value] found found := by
    rw [collected_iff_of_untracked]
    simpa using hattr
  exact step_reads hsegment hcollected hholds

/-- Whether a string table is there, and what it holds, matters only if a reference to it is reached:
the place of a tracked text, with no error before it. Where the table is absent the first such
reference ends the decoding just after its offset. A place that no report needs is passed over,
whatever its offset. -/
theorem tables_matter_to_references (unit : UnitHeader) (specs : List AttributeSpec) (src : Source)
    {pos : ℕ} (hpos : pos ≤ src.bytes.size) {table : SectionId} {s s' : Sections}
    (h : s.AgreeOff table s') :
    ((∀ next, ¬Reaches unit s src table empty pos specs next) →
      decode unit s' specs src pos = decode unit s specs src pos) ∧
    (s.get? table = none → ∀ next, Reaches unit s src table empty pos specs next →
      (decode unit s specs src pos).result = .error (.missingStringTable unit.offset table) ∧
        (decode unit s specs src pos).position = next) ∧
    ∀ spec run found start, spec.attr ∉ [nameCode, compDirCode, lineOffsetCode] →
      AttributeValue.Places unit.format table spec.form run → src.Holds start run →
        (step unit s found spec src start).result = .ok found ∧
          (step unit s found spec src start).position = start + run.length := by
  refine ⟨foldlM_of_agreeOff h hpos, fun habsent next => foldlM_of_absent habsent, ?_⟩
  intro spec run found start hattr hplaces hholds
  obtain ⟨offset, hsegment⟩ := AttributeValue.places_iff.mp hplaces
  exact step_of_untracked hattr hsegment hholds

/-- An offset that no report needs, then a text with the value; and a directory whose place is told
with the value, in a table that is absent. -/
theorem tables_matter_to_references_sample :
    decode ⟨0, .dwarf32, 30, 4, none, 0, 8, 1⟩ ⟨.little, ⟨#[]⟩, ⟨#[]⟩, ⟨#[]⟩, some ⟨#[98, 0]⟩, none⟩
        [⟨0x25, 0x0e, none⟩, ⟨0x03, 0x08, none⟩] ⟨.info, .little, ⟨#[255, 255, 255, 255, 97, 0]⟩⟩ 0 =
      decode ⟨0, .dwarf32, 30, 4, none, 0, 8, 1⟩ ⟨.little, ⟨#[]⟩, ⟨#[]⟩, ⟨#[]⟩, none, none⟩
        [⟨0x25, 0x0e, none⟩, ⟨0x03, 0x08, none⟩] ⟨.info, .little, ⟨#[255, 255, 255, 255, 97, 0]⟩⟩ 0 ∧
    (decode ⟨0, .dwarf32, 30, 4, none, 0, 8, 1⟩ ⟨.little, ⟨#[]⟩, ⟨#[]⟩, ⟨#[]⟩, none, none⟩
        [⟨0x25, 0x0e, none⟩, ⟨0x1b, 0x16, none⟩, ⟨0x03, 0x7f, none⟩]
        ⟨.info, .little, ⟨#[255, 255, 255, 255, 0x8e, 0, 1, 0, 0, 0]⟩⟩ 0).result =
      .error (.missingStringTable 0 .strings) := by
  have hagree : Sections.AgreeOff .strings ⟨.little, ⟨#[]⟩, ⟨#[]⟩, ⟨#[]⟩, none, none⟩
      ⟨.little, ⟨#[]⟩, ⟨#[]⟩, ⟨#[]⟩, some ⟨#[98, 0]⟩, none⟩ := by
    refine ⟨rfl, fun id hid => ?_⟩
    cases id with
    | strings => exact absurd rfl hid
    | _ => rfl
  constructor
  · refine (tables_matter_to_references _ _ _ (by decide) hagree).1 fun next h => ?_
    cases h with
    | here hattr => obtain h | h := hattr <;> exact absurd h (by decide)
    | later _ hrest =>
      cases hrest with
      | here _ hplaces =>
        cases hplaces with
        | direct hform => exact absurd hform (by decide)
        | indirect hcode => exact absurd hcode (by decide)
      | later _ hrest => cases hrest
  · obtain ⟨-, habsent, hpassed⟩ := tables_matter_to_references ⟨0, .dwarf32, 30, 4, none, 0, 8, 1⟩
      [⟨0x25, 0x0e, none⟩, ⟨0x1b, 0x16, none⟩, ⟨0x03, 0x7f, none⟩]
      ⟨.info, .little, ⟨#[255, 255, 255, 255, 0x8e, 0, 1, 0, 0, 0]⟩⟩ (show 0 ≤ _ by decide) hagree
    have hform : (SectionId.strings, 0x0e) ∈ AttributeValue.tableForms := by decide
    obtain ⟨hproducer, hnext⟩ := hpassed ⟨0x25, 0x0e, none⟩ [255, 255, 255, 255] empty 0 (by decide)
      (.direct hform rfl) ⟨[], _, rfl, rfl⟩
    have hplaces : AttributeValue.Places .dwarf32 .strings 0x16
        (Leb.bytes ⟨[14], 0⟩ ++ [1, 0, 0, 0]) := .indirect rfl hform rfl
    have hholds : Source.Holds ⟨.info, .little, ⟨#[255, 255, 255, 255, 0x8e, 0, 1, 0, 0, 0]⟩⟩ 4
        (Leb.bytes ⟨[14], 0⟩ ++ [1, 0, 0, 0]) := ⟨[255, 255, 255, 255], [], rfl, rfl⟩
    refine (habsent rfl 10 (.later hproducer ?_)).1
    rw [hnext]
    exact .here (Or.inr rfl) hplaces hholds

end RootAttributes
end DwarfUnits
