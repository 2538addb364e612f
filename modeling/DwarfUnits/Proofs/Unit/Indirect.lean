import DwarfUnits.Proofs.Decode.Displacement
import DwarfUnits.Proofs.Unit.Locality
import DwarfUnits.Proofs.Unit.Tables

/-! Values that name their own form: they are decoded as if the declaration named it, but for the
form that is told of where an attribute cannot have it. -/
namespace DwarfUnits

variable {id : SectionId} {k : ℕ} {src src' : Source} {pos : ℕ}
  {run rest : List UInt8} {unit : UnitHeader}

theorem Form.skip_shifts (layout : Layout) : layout.skip.Shifts id k layout.skip := by
  cases layout with
  | fixed width => exact Decode.skip_shifts width
  | leb128 => exact Decode.uleb128_shifts.discard
  | cstring => exact Decode.cstring_shifts.discard
  | counted width =>
    exact (Decode.word_shifts width).bind (Decode.word_carries width) fun n => Decode.skip_shifts n
  | lebCounted =>
    exact Decode.uleb128_shifts.bind Decode.uleb128_carries fun n => Decode.skip_shifts n.toNat

namespace AttributeValue

theorem decodeForm_shifts (unit : UnitHeader) (form : Form) :
    (decodeForm unit form).Shifts id k (decodeForm unit form) := by
  unfold decodeForm
  split
  · exact Decode.cstring_shifts.map
  · exact (Decode.offset_shifts _).map
  · exact (Decode.offset_shifts _).map
  · exact (Decode.offset_shifts _).map
  · exact Decode.u32_shifts.map.map
  · exact Decode.u64_shifts.map
  · exact (Form.skip_shifts _).map

theorem unknown_shifts {α : Type} (unit : UnitHeader) (attr code : UInt64) :
    (unknown unit attr code : Decode α).Shifts id k (unknown unit attr code) := .fail rfl

theorem decodeCode_shifts (unit : UnitHeader) (attr code : UInt64) :
    (decodeCode unit attr code).Shifts id k (decodeCode unit attr code) := by
  unfold decodeCode
  split
  · exact decodeForm_shifts unit _
  · exact unknown_shifts unit attr code

theorem decode_shifts (unit : UnitHeader) (attr code : UInt64) :
    (decode unit attr code).Shifts id k (decode unit attr code) := by
  unfold decode
  refine .ite (fun _ => ?_) fun _ => decodeCode_shifts unit attr code
  refine Decode.uleb128_shifts.bind Decode.uleb128_carries fun actual => ?_
  exact .ite (fun _ => unknown_shifts unit attr actual) fun _ => decodeCode_shifts unit attr actual

theorem decode_of_ne {code : UInt64} (h : code ≠ 0x16) (unit : UnitHeader) (attr : UInt64) :
    decode unit attr code = decodeCode unit attr code :=
  if_neg h

/-- After its form, an indirect value is decoded as one of that form. -/
theorem decode_indirect (unit : UnitHeader) (attr : UInt64) {form : Leb} (hform : form.value ≠ 0x21)
    (h : src.Holds pos form.bytes) :
    (decode unit attr 0x16 src pos).result =
        (decodeCode unit attr form.value src (pos + form.bytes.length)).result ∧
      (decode unit attr 0x16 src pos).position =
        (decodeCode unit attr form.value src (pos + form.bytes.length)).position := by
  obtain ⟨hvalue, hnext⟩ := Decode.uleb128_reads form h
  have hconstant : form.value ≠ Form.implicitConst.code := hform
  have hindirect : (0x16 : UInt64) = Form.indirectCode := rfl
  unfold decode
  rw [if_pos hindirect, Decode.bind_ok hvalue, hnext, if_neg hconstant]
  exact ⟨rfl, rfl⟩

/-- A form may as well stand before its value. -/
theorem decode_deferred (unit : UnitHeader) (attr : UInt64) {form : Leb} (hindirect : form.value ≠ 0x16)
    (hconstant : form.value ≠ 0x21) (hid : src.id = .info) (hpos : pos ≤ src.bytes.size) :
    (decode unit attr form.value src pos).Displaced .info form.bytes.length
      (decode unit attr 0x16 (src.insert pos form.bytes) pos) := by
  obtain ⟨hresult, hnext⟩ := decode_indirect unit attr hconstant
    (Source.holds_insert hpos form.bytes)
  obtain ⟨hresult', hnext'⟩ := decodeCode_shifts unit attr form.value src pos _ hid
    (Source.displaced_insert hpos form.bytes)
  rw [decode_of_ne hindirect]
  exact ⟨hresult.trans hresult', hnext.trans hnext'⟩

theorem mem_of_ofRun_eq_offset {order : ByteOrder} {code n : UInt64}
    (h : ofRun order code run = .offset n) : code ∈ [0x17, 0x06, 0x07] := by
  unfold ofRun at h
  split at h
  · cases h
  split at h
  · cases h
  split at h
  · cases h
  split at h
  · assumption
  · cases h

end AttributeValue

/-- The same attribute, with its form left to the data. -/
def AttributeSpec.deferred (spec : AttributeSpec) : AttributeSpec := { spec with form := 0x16 }

namespace RootAttributes

/-- The forms that an attribute can have, as far as a report needs its value. -/
def Suits (attr code : UInt64) : Prop :=
  (NeedsText attr → code ∈ [0x08, 0x0e, 0x1f]) ∧ (attr = lineOffsetCode → code ∈ [0x17, 0x06, 0x07])

/-- A whole value stands at `pos`, of a form that its attribute cannot have. -/
def Misfit (unit : UnitHeader) (src : Source) (pos : ℕ) (attr code : UInt64) : Prop :=
  ¬Suits attr code ∧ ∃ run, src.Holds pos run ∧ unit.encoding.Writes src.order code run

variable {s s' : Sections} {spec spec' : AttributeSpec} {specs : List AttributeSpec}
  {found : RootAttributes} {order : ByteOrder} {code : UInt64}

theorem text_of_mem (h : code ∈ [0x08, 0x0e, 0x1f]) :
    text unit s spec' (.ofRun order code run) = text unit s spec (.ofRun order code run) := by
  simp only [List.mem_cons, List.not_mem_nil, or_false] at h
  obtain rfl | rfl | rfl := h <;> rfl

theorem text_of_not_mem (h : code ∉ [0x08, 0x0e, 0x1f]) :
    text unit s spec (.ofRun order code run) = AttributeValue.unknown unit spec.attr spec.form := by
  simp only [List.mem_cons, List.not_mem_nil, or_false, not_or] at h
  unfold AttributeValue.ofRun
  rw [if_neg h.1, if_neg h.2.1, if_neg h.2.2]
  split <;> rfl

/-- The form that a declaration gives plays no part where the attribute can have the value. -/
theorem set_of_suits (h : Suits spec.attr code) (hattr : spec'.attr = spec.attr) :
    set unit s spec' (.ofRun order code run) found = set unit s spec (.ofRun order code run) found := by
  have htext (hneeds : NeedsText spec.attr) : text unit s spec' (.ofRun order code run) =
      text unit s spec (.ofRun order code run) := text_of_mem (h.1 hneeds)
  unfold set
  rw [hattr]
  by_cases hname : spec.attr = nameCode
  · rw [if_pos hname, if_pos hname, htext (Or.inl hname)]
  rw [if_neg hname, if_neg hname]
  by_cases hcompDir : spec.attr = compDirCode
  · rw [if_pos hcompDir, if_pos hcompDir, htext (Or.inr hcompDir)]
  rw [if_neg hcompDir, if_neg hcompDir]
  by_cases hlineOffset : spec.attr = lineOffsetCode
  · have hcode := h.2 hlineOffset
    simp only [List.mem_cons, List.not_mem_nil, or_false] at hcode
    obtain rfl | rfl | rfl := hcode <;> rfl
  · rw [if_neg hlineOffset, if_neg hlineOffset]

theorem not_suits_iff {attr : UInt64} : ¬Suits attr code ↔
    NeedsText attr ∧ code ∉ [0x08, 0x0e, 0x1f] ∨
      attr = lineOffsetCode ∧ code ∉ [0x17, 0x06, 0x07] := by
  rw [Suits, not_and_or, Classical.not_imp, Classical.not_imp]

theorem set_of_not_suits (h : ¬Suits spec.attr code) :
    set unit s spec (.ofRun order code run) found =
      AttributeValue.unknown unit spec.attr spec.form := by
  obtain ⟨hattr, hcode⟩ | ⟨hlineOffset, hcode⟩ := not_suits_iff.mp h
  · exact set_of_text_eq_fail hattr (text_of_not_mem hcode)
  · have hname : spec.attr ≠ nameCode := hlineOffset ▸ by decide
    have hcompDir : spec.attr ≠ compDirCode := hlineOffset ▸ by decide
    unfold set
    rw [if_neg hname, if_neg hcompDir, if_pos hlineOffset]
    split
    · exact absurd (AttributeValue.mem_of_ofRun_eq_offset ‹_›) hcode
    · rfl

theorem text_shifts (hid : id = .info) (unit : UnitHeader) (spec : AttributeSpec)
    {value : AttributeValue} (hvalue : value.Tabled) :
    (text unit s spec value).Shifts id k (text unit s spec value) := by
  cases value with
  | text bytes => exact .pure _
  | textAt table offset =>
    have htable : table ≠ id := by
      rw [hid]
      rintro rfl
      obtain h | h := hvalue <;> cases h
    refine .ite (fun _ => .fail rfl) fun _ => .map (Decode.decodeAt_shifts htable fun other => ?_)
    exact ⟨1, Decode.cstring_advances⟩
  | offset n => exact AttributeValue.unknown_shifts unit spec.attr spec.form
  | untracked => exact AttributeValue.unknown_shifts unit spec.attr spec.form

theorem set_shifts (hid : id = .info) (unit : UnitHeader) (spec : AttributeSpec)
    {value : AttributeValue} (hvalue : value.Tabled) (found : RootAttributes) :
    (set unit s spec value found).Shifts id k (set unit s spec value found) := by
  have htext : (text unit s spec value).Shifts id k (text unit s spec value) :=
    text_shifts hid unit spec hvalue
  unfold set
  refine .ite (fun _ => htext.map) fun _ => .ite (fun _ => htext.map) fun _ => ?_
  refine .ite (fun _ => ?_) fun _ => .pure found
  split
  · exact .pure _
  · exact AttributeValue.unknown_shifts unit spec.attr spec.form

theorem step_shifts (hid : id = .info) (unit : UnitHeader) (found : RootAttributes)
    (spec : AttributeSpec) : (step unit s found spec).Shifts id k (step unit s found spec) := by
  unfold step
  refine (AttributeValue.decode_shifts unit spec.attr spec.form).bind_of
    (AttributeValue.decode_carries unit 0 spec.attr spec.form)
    (AttributeValue.decode_tabled unit spec.attr spec.form) fun value hvalue => ?_
  refine .position_bind fun p p' => .bind (.emit _ _) (.emit _ _) fun _ => ?_
  exact set_shifts hid unit spec hvalue found

theorem foldlM_shifts (hid : id = .info) (unit : UnitHeader) (specs : List AttributeSpec)
    (found : RootAttributes) :
    (specs.foldlM (step unit s) found).Shifts id k (specs.foldlM (step unit s) found) := by
  induction specs generalizing found with
  | nil => exact .pure found
  | cons spec specs ih =>
    rw [List.foldlM_cons]
    exact (step_shifts hid unit found spec).bind (step_carries (.refl s) unit 0 found spec) ih

/-- Attributes of root entries are not in the section of the entries. -/
theorem step_of_agreeOff_info (h : s.AgreeOff .info s') (unit : UnitHeader) :
    step unit s' = step unit s := by
  funext found spec src pos
  refine step_of_agreeOff h fun _ offset hresult => ?_
  obtain htable | htable := AttributeValue.decode_tabled unit _ _ src pos _ hresult <;> cases htable

/-- The value of one spec, with its form put before it. -/
theorem step_deferred (s : Sections) (found : RootAttributes) {form : Leb}
    (hform : spec.form = form.value) (hindirect : form.value ≠ 0x16) (hconstant : form.value ≠ 0x21)
    (hid : src.id = .info) (hpos : pos ≤ src.bytes.size)
    (hfits : ¬Misfit unit src pos spec.attr form.value) :
    (step unit s found spec src pos).Displaced .info form.bytes.length
      (step unit s found spec.deferred (src.insert pos form.bytes) pos) := by
  have hvalue := AttributeValue.decode_deferred unit spec.attr hindirect hconstant hid hpos
  unfold step
  rw [hform]
  refine hvalue.bind fun value hfound => ?_
  rw [AttributeValue.decode_of_ne hindirect] at hfound ⊢
  obtain ⟨run, hholds, hnext, hwrites, rfl⟩ :=
    (AttributeValue.decodeCode_follows spec.attr form.value).of_ok hfound
  -- The value is whole, so its form suits, and then the form of the spec is not looked at.
  have hsuits : Suits spec.attr form.value := by
    by_contra hnot
    exact hfits ⟨hnot, run, hholds, hwrites⟩
  have hset : set unit s spec.deferred (.ofRun src.order form.value run) found =
      set unit s spec (.ofRun src.order form.value run) found := set_of_suits hsuits rfl
  have htabled := AttributeValue.decodeCode_tabled unit _ _ src pos _ hfound
  have hrest := (Source.displaced_insert hpos form.bytes).later
    (hnext ▸ Nat.le_add_right pos run.length) (hnext ▸ hholds.le_size)
  obtain ⟨hresult, hposition⟩ := set_shifts (s := s) rfl unit spec htabled found src _ _ hid hrest
  rw [hset]
  exact ⟨hresult, hposition⟩

theorem step_of_misfit (s : Sections) (found : RootAttributes) (spec : AttributeSpec)
    (hmisfit : ¬Suits spec.attr code)
    (hsegment : unit.encoding.Segment src.order spec.form run (.ofRun order code rest))
    (hholds : src.Holds pos run) :
    (step unit s found spec src pos).result =
        .error (.unknownForm unit.offset spec.attr spec.form) ∧
      (step unit s found spec src pos).position = pos + run.length := by
  obtain ⟨hvalue, hnext⟩ := AttributeValue.decode_reads spec.attr hsegment hholds
  obtain ⟨hresult, hposition⟩ := step_of_value s found hvalue
  rw [hresult, hposition, hnext, set_of_not_suits hmisfit]
  exact ⟨rfl, rfl⟩

/-- Where the attribute cannot have the form, the form told of is the one in the declaration. -/
theorem step_misfit (s : Sections) (found : RootAttributes) {form : Leb}
    (hform : spec.form = form.value) (hconstant : form.value ≠ 0x21)
    (hpos : pos ≤ src.bytes.size) (h : Misfit unit src pos spec.attr form.value) :
    (step unit s found spec src pos).result =
        .error (.unknownForm unit.offset spec.attr form.value) ∧
      (step unit s found spec.deferred (src.insert pos form.bytes) pos).result =
        .error (.unknownForm unit.offset spec.attr 0x16) ∧
      (step unit s found spec.deferred (src.insert pos form.bytes) pos).position =
        (step unit s found spec src pos).position + form.bytes.length := by
  obtain ⟨hnot, run, hholds, hwrites⟩ := h
  have hdirect : unit.encoding.Segment src.order spec.form run (.ofRun src.order form.value run) := by
    rw [hform]
    exact .direct hwrites
  have hdeferred : unit.encoding.Segment (src.insert pos form.bytes).order spec.deferred.form
      (form.bytes ++ run) (.ofRun src.order form.value run) := .indirect rfl hconstant hwrites
  have hholds' : (src.insert pos form.bytes).Holds pos (form.bytes ++ run) :=
    (Source.holds_insert hpos form.bytes).append
      ((Source.displaced_insert hpos form.bytes).holds (Nat.le_refl pos) hholds)
  obtain ⟨hresult, hnext⟩ := step_of_misfit s found spec hnot hdirect hholds
  obtain ⟨hresult', hnext'⟩ := step_of_misfit s found spec.deferred hnot hdeferred hholds'
  refine ⟨hform ▸ hresult, hresult', ?_⟩
  rw [hnext, hnext', List.length_append]
  omega

theorem decode_append (before rest : List AttributeSpec) :
    decode unit s (before ++ rest) =
      decode unit s before >>= fun found => rest.foldlM (step unit s) found :=
  List.foldlM_append

/-- What follows the value moves with it. -/
theorem foldlM_deferred (s : Sections) (found : RootAttributes) (after : List AttributeSpec)
    {form : Leb} (hform : spec.form = form.value) (hindirect : form.value ≠ 0x16)
    (hconstant : form.value ≠ 0x21) (hid : src.id = .info) (hpos : pos ≤ src.bytes.size)
    (hfits : ¬Misfit unit src pos spec.attr form.value) :
    ((spec :: after).foldlM (step unit s) found src pos).Displaced .info form.bytes.length
      ((spec.deferred :: after).foldlM (step unit s) found (src.insert pos form.bytes) pos) := by
  rw [List.foldlM_cons, List.foldlM_cons]
  refine (step_deferred s found hform hindirect hconstant hid hpos hfits).bind fun next hnext => ?_
  have hcarries := step_carries (k := 0) (.refl s) unit 0 found spec src pos hpos
  obtain ⟨hle, hsize⟩ := (hcarries.of_ok hnext).bounds
  exact foldlM_shifts rfl unit after next src _ _ hid
    ((Source.displaced_insert hpos form.bytes).later hle hsize)

theorem foldlM_misfit (s : Sections) (found : RootAttributes) (after : List AttributeSpec)
    {form : Leb} (hform : spec.form = form.value) (hconstant : form.value ≠ 0x21)
    (hpos : pos ≤ src.bytes.size) (h : Misfit unit src pos spec.attr form.value) :
    ((spec :: after).foldlM (step unit s) found src pos).result =
        .error (.unknownForm unit.offset spec.attr form.value) ∧
      ((spec.deferred :: after).foldlM (step unit s) found (src.insert pos form.bytes) pos).result =
        .error (.unknownForm unit.offset spec.attr 0x16) ∧
      ((spec.deferred :: after).foldlM (step unit s) found (src.insert pos form.bytes) pos).position =
        ((spec :: after).foldlM (step unit s) found src pos).position + form.bytes.length := by
  obtain ⟨hdirect, hdeferred, hposition⟩ := step_misfit s found hform hconstant hpos h
  rw [List.foldlM_cons, List.foldlM_cons, Decode.bind_error hdirect, Decode.bind_error hdeferred]
  exact ⟨rfl, rfl, hposition⟩

/-- The form of a value may as well stand before the value: everything decoded is the same, and so is
every error, but for places in the section, which are so much further on. The one exception is a
whole value of a form that its attribute cannot have: it is told of with the form that the
declaration gives, and so not with its own. -/
theorem deferred_form_transparent_iff (unit : UnitHeader) {s s' : Sections} (h : s.AgreeOff .info s')
    (before after : List AttributeSpec) (spec : AttributeSpec) {form : Leb}
    (hform : spec.form = form.value) (hindirect : form.value ≠ 0x16)
    (hconstant : form.value ≠ 0x21) {src : Source} (hid : src.id = .info) {pos mid : ℕ}
    (hpos : pos ≤ src.bytes.size) {found : RootAttributes}
    (hbefore : (decode unit s before src pos).result = .ok found)
    (hmid : (decode unit s before src pos).position = mid) :
    ((decode unit s (before ++ spec :: after) src pos).Displaced .info form.bytes.length
        (decode unit s' (before ++ spec.deferred :: after) (src.insert mid form.bytes) pos) ↔
      ¬Misfit unit src mid spec.attr form.value) ∧
    (Misfit unit src mid spec.attr form.value →
      (decode unit s (before ++ spec :: after) src pos).result =
          .error (.unknownForm unit.offset spec.attr form.value) ∧
        (decode unit s' (before ++ spec.deferred :: after) (src.insert mid form.bytes) pos).result =
          .error (.unknownForm unit.offset spec.attr 0x16) ∧
        (decode unit s' (before ++ spec.deferred :: after) (src.insert mid form.bytes) pos).position =
          (decode unit s (before ++ spec :: after) src pos).position + form.bytes.length) := by
  have hsame (specs : List AttributeSpec) : decode unit s' specs = decode unit s specs := by
    unfold decode
    rw [step_of_agreeOff_info h]
  obtain ⟨hinside, hbefore', hmid'⟩ :=
    (decode_carries (.refl s) unit 0 before).insert hpos hbefore hmid form.bytes
  rw [hsame, decode_append, decode_append, Decode.bind_ok hbefore, Decode.bind_ok hbefore', hmid,
    hmid']
  constructor
  · constructor
    · rintro ⟨hdisplaced, -⟩ hmisfit
      obtain ⟨hdirect, hdeferred, -⟩ := foldlM_misfit s found after hform hconstant hinside hmisfit
      rw [hdirect, hdeferred] at hdisplaced
      exact hindirect (Error.unknownForm.inj (Except.error.inj hdisplaced)).2.2.symm
    · intro hfits
      have hrest := foldlM_deferred s found after hform hindirect hconstant hid hinside hfits
      exact ⟨hrest.result, hrest.position⟩
  · exact foldlM_misfit s found after hform hconstant hinside

/-- A name whose form stands before it in two bytes, and after it an offset that is cut off. -/
theorem deferred_form_transparent_iff_cut :
    (decode ⟨0, .dwarf32, 30, 4, none, 0, 8, 1⟩ ⟨.little, ⟨#[]⟩, ⟨#[]⟩, ⟨#[]⟩, none, none⟩
      [⟨0x03, 0x08, none⟩, ⟨0x10, 0x17, none⟩] ⟨.info, .little, ⟨#[97, 0, 5]⟩⟩ 0).Displaced .info 2
    (decode ⟨0, .dwarf32, 30, 4, none, 0, 8, 1⟩ ⟨.little, ⟨#[]⟩, ⟨#[]⟩, ⟨#[]⟩, none, none⟩
      [⟨0x03, 0x16, none⟩, ⟨0x10, 0x17, none⟩] ⟨.info, .little, ⟨#[0x88, 0, 97, 0, 5]⟩⟩ 0) := by
  have hagree : Sections.AgreeOff .info ⟨.little, ⟨#[]⟩, ⟨#[]⟩, ⟨#[]⟩, none, none⟩
      ⟨.little, ⟨#[]⟩, ⟨#[]⟩, ⟨#[]⟩, none, none⟩ := ⟨rfl, fun _ _ => rfl⟩
  have hform : (⟨0x03, 0x08, none⟩ : AttributeSpec).form = Leb.value ⟨[8], 0⟩ := by decide
  refine (deferred_form_transparent_iff ⟨0, .dwarf32, 30, 4, none, 0, 8, 1⟩ hagree []
    [⟨0x10, 0x17, none⟩] ⟨0x03, 0x08, none⟩ hform (by decide) (by decide) rfl (Nat.zero_le _) rfl
    rfl).1.mpr fun hmisfit => ?_
  exact hmisfit.1 ⟨fun _ => by decide, fun heq => absurd heq (by decide)⟩

/-- An offset in two bytes is told of with the form of the declaration, which is not its own. -/
theorem deferred_form_not_transparent :
    (decode ⟨0, .dwarf32, 30, 4, none, 0, 8, 1⟩ ⟨.little, ⟨#[]⟩, ⟨#[]⟩, ⟨#[]⟩, none, none⟩
      [⟨0x10, 0x05, none⟩] ⟨.info, .little, ⟨#[0, 0]⟩⟩ 0).result = .error (.unknownForm 0 0x10 0x05) ∧
    (decode ⟨0, .dwarf32, 30, 4, none, 0, 8, 1⟩ ⟨.little, ⟨#[]⟩, ⟨#[]⟩, ⟨#[]⟩, none, none⟩
      [⟨0x10, 0x16, none⟩] ⟨.info, .little, ⟨#[5, 0, 0]⟩⟩ 0).result =
        .error (.unknownForm 0 0x10 0x16) ∧
    ¬(decode ⟨0, .dwarf32, 30, 4, none, 0, 8, 1⟩ ⟨.little, ⟨#[]⟩, ⟨#[]⟩, ⟨#[]⟩, none, none⟩
      [⟨0x10, 0x05, none⟩] ⟨.info, .little, ⟨#[0, 0]⟩⟩ 0).Displaced .info 1
    (decode ⟨0, .dwarf32, 30, 4, none, 0, 8, 1⟩ ⟨.little, ⟨#[]⟩, ⟨#[]⟩, ⟨#[]⟩, none, none⟩
      [⟨0x10, 0x16, none⟩] ⟨.info, .little, ⟨#[5, 0, 0]⟩⟩ 0) := by
  have hnot : ¬Suits 0x10 (Leb.value ⟨[], 5⟩) := fun hsuits => absurd (hsuits.2 rfl) (by decide)
  have hwrites : Encoding.Writes .little ⟨.dwarf32, 4, 8⟩ (Leb.value ⟨[], 5⟩) [0, 0] :=
    .fixed (by decide)
  have hmisfit : Misfit ⟨0, .dwarf32, 30, 4, none, 0, 8, 1⟩ ⟨.info, .little, ⟨#[0, 0]⟩⟩ 0 0x10
      (Leb.value ⟨[], 5⟩) := ⟨hnot, _, ⟨[], [], rfl, rfl⟩, hwrites⟩
  have hform : (⟨0x10, 0x05, none⟩ : AttributeSpec).form = Leb.value ⟨[], 5⟩ := by decide
  obtain ⟨hdirect, hdeferred, -⟩ := foldlM_misfit ⟨.little, ⟨#[]⟩, ⟨#[]⟩, ⟨#[]⟩, none, none⟩ empty []
    hform (by decide) (Nat.zero_le _) hmisfit
  rw [← hform] at hdirect
  refine ⟨hdirect, hdeferred, fun hdisplaced => ?_⟩
  have hforms := hdeferred.symm.trans (hdisplaced.error hdirect)
  exact absurd (Error.unknownForm.inj (Except.error.inj hforms)).2.2 (by decide)

end RootAttributes
end DwarfUnits
