import DwarfUnits.Proofs.Grammar.Declaration
import DwarfUnits.Proofs.Grammar.Root
import DwarfUnits.Proofs.Image.LineTable

/-! Root entries as they are written: a declaration in one section, its values in another. -/
namespace DwarfUnits

/-- Where a text stands: with the value, or at an offset of a string table. -/
inductive TextPlace where
  | inline
  | strings (offset : UInt64)
  | lineStrings (offset : UInt64)

/-- The form of an offset into the line tables. -/
inductive OffsetPlace where
  | secOffset
  | data4
  | data8

/-- An attribute and its value: one of the three that a report needs, or any other. -/
inductive Content where
  | name (place : TextPlace) (label : Label)
  | compDir (place : TextPlace) (label : Label)
  | lineTable (place : OffsetPlace) (offset : UInt64) (table : LineTableImage)
  | other (attr form : UInt64) (run : List UInt8) (h : attr ∉ [0, 0x03, 0x10, 0x1b])

namespace TextPlace

def form : TextPlace → UInt64
  | inline => 0x08
  | strings _ => 0x0e
  | lineStrings _ => 0x1f

def run (order : ByteOrder) (format : Format) (label : Label) : TextPlace → List UInt8
  | inline => label.bytes
  | strings offset | lineStrings offset => format.offsetBytes order offset

/-- The text stands where the value says. -/
def Fits (s : Sections) (format : Format) (label : Label) : TextPlace → Prop
  | inline => True
  | strings offset => format.FitsOffset offset ∧ s.Holds .strings offset.toNat label.bytes
  | lineStrings offset => format.FitsOffset offset ∧ s.Holds .lineStrings offset.toNat label.bytes

end TextPlace

namespace OffsetPlace

def form : OffsetPlace → UInt64
  | secOffset => 0x17
  | data4 => 0x06
  | data8 => 0x07

def run (order : ByteOrder) (format : Format) (offset : UInt64) : OffsetPlace → List UInt8
  | secOffset => format.offsetBytes order offset
  | data4 => order.bytes 4 offset.toNat
  | data8 => order.bytes 8 offset.toNat

def Fits (format : Format) (offset : UInt64) : OffsetPlace → Prop
  | secOffset => format.FitsOffset offset
  | data4 => offset.toNat < 256 ^ 4
  | data8 => True

end OffsetPlace

namespace Content

def attr : Content → UInt64
  | name .. => 0x03
  | compDir .. => 0x1b
  | lineTable .. => 0x10
  | other attr .. => attr

def form : Content → UInt64
  | name place _ | compDir place _ => place.form
  | lineTable place .. => place.form
  | other _ form .. => form

def run (order : ByteOrder) (format : Format) : Content → List UInt8
  | name place label | compDir place label => place.run order format label
  | lineTable place offset _ => place.run order format offset
  | other _ _ run _ => run

/-- The value is one of its form in a unit, and what it refers to stands in the sections. -/
def Fits (s : Sections) (e : Encoding) : Content → Prop
  | name place label | compDir place label => place.Fits s e.format label
  | lineTable place offset table =>
    place.Fits e.format offset ∧ s.Holds .lines offset.toNat (table.encode s.order)
  | other _ form run _ => e.Writes s.order form run

def name? : Content → Option String
  | name _ label => some label.text
  | _ => none

def compDir? : Content → Option String
  | compDir _ label => some label.text
  | _ => none

def lineTable? : Content → Option (UInt64 × LineTableImage)
  | lineTable _ offset table => some (offset, table)
  | _ => none

end Content

/-- An attribute as a declaration and an entry write it. -/
structure AttributeImage where
  content : Content
  attr : Leb
  form : Leb
  /-- The form that stands in the declaration if the actual one stands before the value. -/
  indirect : Option Leb
  /-- Written in the declaration, for the form whose value stands there. -/
  constant : Leb
  attr_value : attr.value = content.attr
  form_value : form.value = content.form
  indirect_value : ∀ l ∈ indirect, l.value = 0x16 ∧ content.form ≠ 0x21

namespace AttributeImage

def declared (a : AttributeImage) : Leb := a.indirect.getD a.form

def specBytes (a : AttributeImage) : List UInt8 :=
  a.attr.bytes ++ (a.declared.bytes ++ (if a.declared.value = 0x21 then a.constant.bytes else []))

/-- The form before the value, where the declaration leaves it open. -/
def formBytes (a : AttributeImage) : List UInt8 := if a.indirect.isSome then a.form.bytes else []

def valueBytes (order : ByteOrder) (format : Format) (a : AttributeImage) : List UInt8 :=
  a.formBytes ++ a.content.run order format

end AttributeImage

/-- An entry and the declaration that its code names. -/
structure EntryImage where
  code : Leb
  /-- The same code where the declaration stands. -/
  declared : Leb
  tag : Leb
  children : UInt8
  attributes : List AttributeImage
  endAttr : Leb
  endForm : Leb
  code_ne : code.value ≠ 0
  declared_value : declared.value = code.value
  endAttr_value : endAttr.value = 0

namespace EntryImage

def contents (e : EntryImage) : List Content := e.attributes.map (·.content)

def declaration (e : EntryImage) : List UInt8 :=
  e.declared.bytes ++ (e.tag.bytes ++ ([e.children] ++
    (e.attributes.flatMap (·.specBytes) ++ (e.endAttr.bytes ++ e.endForm.bytes))))

def values (order : ByteOrder) (format : Format) (e : EntryImage) : List UInt8 :=
  e.attributes.flatMap (·.valueBytes order format)

end EntryImage

variable {src : Source} {pos : ℕ}

namespace TextPlace

variable {s : Sections} {unit : UnitHeader} {label : Label} {place : TextPlace}

/-- The value that a text is decoded to before it is looked up. -/
def value (label : Label) : TextPlace → AttributeValue
  | inline => .text (Text.utf8 label.text)
  | strings offset => .textAt .strings offset
  | lineStrings offset => .textAt .lineStrings offset

theorem value_reads (attr : UInt64) (h : place.Fits s unit.format label) :
    (AttributeValue.decodeCode unit attr place.form).Reads src pos
      (place.run src.order unit.format label) (place.value label) := by
  cases place with
  | inline => exact (Decode.label_reads label).map rfl
  | strings offset => exact (Decode.offset_reads h.1).map rfl
  | lineStrings offset => exact (Decode.offset_reads h.1).map rfl

/-- The text stands at the place that its value gives. -/
theorem names (h : place.Fits s unit.format label) : (place.value label).Names s label.text := by
  have hzero : 0 ∉ Text.utf8 label.text := Text.zero_not_mem_utf8 label.zeroFree
  rw [← Text.ofBytes_utf8 label.text]
  cases place with
  | inline => exact .inline _
  | strings offset => exact .tabled hzero h.2
  | lineStrings offset => exact .tabled hzero h.2

end TextPlace

theorem OffsetPlace.value_reads {unit : UnitHeader} {offset : UInt64} (attr : UInt64)
    (place : OffsetPlace) (h : place.Fits unit.format offset) :
    (AttributeValue.decodeCode unit attr place.form).Reads src pos
      (place.run src.order unit.format offset) (.offset offset) := by
  cases place with
  | secOffset => exact (Decode.offset_reads h).map rfl
  | data4 =>
    have hword : (UInt32.ofNat offset.toNat).toUInt64 = offset := by
      rw [UInt32.toUInt64_ofNat' h, UInt64.ofNat_toNat]
    exact (((Decode.word_reads_bytes h).map rfl).map hword).map rfl
  | data8 => exact (Decode.u64_reads offset).map rfl

namespace Content

def keep (found : RootAttributes) : Content → RootAttributes
  | name _ label => { found with name := some label.text }
  | compDir _ label => { found with compDir := some label.text }
  | lineTable _ offset _ => { found with lineOffset := some offset }
  | other .. => found

variable {s : Sections} {unit : UnitHeader} {c : Content}

theorem attr_ne_zero (c : Content) : c.attr ≠ 0 := by
  cases c with
  | name | compDir | lineTable => simp [attr]
  | other attr form run h =>
    rintro rfl
    simp at h

/-- No value is of the form that leaves its own form open. -/
theorem form_ne_indirect (h : c.Fits s unit.encoding) : c.form ≠ Form.indirectCode := by
  cases c with
  | name place | compDir place => cases place <;> simp [form, TextPlace.form, Form.indirectCode]
  | lineTable place => cases place <;> simp [form, OffsetPlace.form, Form.indirectCode]
  | other attr form run huntracked =>
    rintro rfl
    exact AttributeValue.not_writes_indirect h

/-- A value is read to its end, and what a report needs of it is kept. -/
theorem exists_value_reads (pos : ℕ) (h : c.Fits s unit.encoding) (horder : src.order = s.order) :
    ∃ value, (AttributeValue.decodeCode unit c.attr c.form).Reads src pos
        (c.run src.order unit.format) value ∧
      ∀ spec found, spec.attr = c.attr →
        RootAttributes.Collected s [spec] [value] found (c.keep found) := by
  cases c with
  | name place label =>
    refine ⟨place.value label, place.value_reads _ h, fun spec found hspec => ?_⟩
    exact (RootAttributes.collected_iff_of_name hspec).mpr ⟨_, place.names h, rfl⟩
  | compDir place label =>
    refine ⟨place.value label, place.value_reads _ h, fun spec found hspec => ?_⟩
    exact (RootAttributes.collected_iff_of_compDir hspec).mpr ⟨_, place.names h, rfl⟩
  | lineTable place offset table =>
    refine ⟨.offset offset, place.value_reads _ h.1, fun spec found hspec => ?_⟩
    exact (RootAttributes.collected_iff_of_lineOffset hspec).mpr ⟨_, rfl, rfl⟩
  | other attr form run huntracked =>
    have hwrites : unit.encoding.Writes src.order form run := by
      rw [horder]
      exact h
    refine ⟨_, AttributeValue.decodeCode_reads hwrites, fun spec found hspec => ?_⟩
    have htracked : [RootAttributes.nameCode, RootAttributes.compDirCode,
        RootAttributes.lineOffsetCode] ⊆ [0, 0x03, 0x10, 0x1b] := by decide
    refine (RootAttributes.collected_iff_of_untracked fun spec' hspec' hmem => ?_).mpr rfl
    rw [List.mem_singleton.mp hspec', hspec] at hmem
    exact huntracked (htracked hmem)

end Content

namespace AttributeImage

variable {s : Sections} {unit : UnitHeader} {a : AttributeImage}

def spec (a : AttributeImage) : AttributeSpec where
  attr := a.content.attr
  form := a.declared.value
  constant := if a.declared.value = 0x21 then some (Leb128.signed a.constant.bytes) else none

/-- The spec alone, as it is written. -/
def specImage (a : AttributeImage) : SpecImage where
  attr := a.attr
  form := a.declared
  constant := if a.declared.value = 0x21 then some a.constant else none
  attr_ne := a.attr_value ▸ a.content.attr_ne_zero
  constant_iff := by split <;> simp [*]

@[simp] theorem bytes_specImage (a : AttributeImage) : a.specImage.bytes = a.specBytes := by
  unfold SpecImage.bytes specImage specBytes
  split <;> rfl

@[simp] theorem spec_specImage (a : AttributeImage) : a.specImage.spec = a.spec := by
  unfold SpecImage.spec specImage spec
  rw [← a.attr_value]
  split
  · rw [Option.map_some, ← Leb.signed_bytes]
  · rfl

/-- A value is found where its form is named, here or in the declaration. -/
theorem value_reads {value : AttributeValue} (hform : a.content.form ≠ Form.indirectCode)
    (h : (AttributeValue.decodeCode unit a.content.attr a.content.form).Reads src
      (pos + a.formBytes.length) (a.content.run src.order unit.format) value) :
    (AttributeValue.decode unit a.spec.attr a.spec.form).Reads src pos
      (a.valueBytes src.order unit.format) value := by
  unfold AttributeValue.decode spec valueBytes
  cases hindirect : a.indirect with
  | none =>
    have hdeclared : a.declared.value = a.content.form := by
      rw [declared, hindirect, Option.getD_none, a.form_value]
    have hbytes : a.formBytes = [] := by simp [formBytes, hindirect]
    rw [hbytes] at h ⊢
    rw [hdeclared, if_neg hform]
    exact h
  | some l =>
    obtain ⟨hl, hconstant⟩ := a.indirect_value l hindirect
    have hdeclared : a.declared.value = Form.indirectCode := by
      rw [declared, hindirect, Option.getD_some, hl]
      rfl
    have hbytes : a.formBytes = a.form.bytes := by simp [formBytes, hindirect]
    have hactual : a.form.value ≠ Form.implicitConst.code := by
      rw [a.form_value]
      exact hconstant
    rw [hbytes] at h ⊢
    rw [hdeclared, if_pos rfl]
    apply (Decode.uleb128_reads a.form).bind
    rw [if_neg hactual, a.form_value]
    exact h

theorem step_reads (found : RootAttributes) (h : a.content.Fits s unit.encoding)
    (horder : src.order = s.order) :
    (RootAttributes.step unit s found a.spec).Reads src pos
      (a.valueBytes src.order unit.format) (a.content.keep found) := by
  obtain ⟨value, hvalue, hset⟩ := Content.exists_value_reads (pos + a.formBytes.length) h horder
  apply (a.value_reads (Content.form_ne_indirect h) hvalue).bind_last
  refine Decode.Reads.bind_nil .position (Decode.Reads.bind_nil (.emit _) ?_)
  exact RootAttributes.set_reads (hset a.spec found rfl)

end AttributeImage

namespace EntryImage

variable {s : Sections} {unit : UnitHeader} {e : EntryImage}

theorem values_reads (attributes : List AttributeImage) (found : RootAttributes)
    (h : ∀ a ∈ attributes, a.content.Fits s unit.encoding) (horder : src.order = s.order) :
    ((attributes.map (·.spec)).foldlM (RootAttributes.step unit s) found).Reads src pos
      (attributes.flatMap (·.valueBytes src.order unit.format))
      ((attributes.map (·.content)).foldl Content.keep found) := by
  -- What the attributes before left is carried along with the position.
  induction attributes generalizing found pos with
  | nil => exact .pure found
  | cons a attributes ih =>
    rw [List.forall_mem_cons] at h
    exact (a.step_reads found h.1 horder).bind (ih _ h.2)

def decoded (e : EntryImage) : Declaration where
  code := e.code.value
  tag := e.tag.value
  hasChildren := e.children ≠ 0
  specs := e.attributes.map (·.spec)

/-- The declaration alone, as it is written. -/
def declarationImage (e : EntryImage) : DeclarationImage where
  code := e.declared
  tag := e.tag
  children := e.children
  specs := e.attributes.map (·.specImage)
  endAttr := e.endAttr
  endForm := e.endForm
  endAttr_value := e.endAttr_value

theorem bytes_declarationImage (e : EntryImage) : e.declarationImage.bytes = e.declaration := by
  simp [DeclarationImage.bytes, declarationImage, declaration, List.flatMap_map]

theorem declaration_declarationImage (e : EntryImage) :
    e.declarationImage.declaration = e.decoded := by
  simp only [DeclarationImage.declaration, declarationImage, decoded, e.declared_value,
    List.map_map, Function.comp_def, AttributeImage.spec_specImage]
  rfl

theorem declaration_reads (hcode : unit.rootCode = e.code.value) :
    (Declaration.decodeRoot unit).Reads src pos e.declaration e.decoded := by
  rw [← bytes_declarationImage, ← declaration_declarationImage]
  exact Declaration.decodeRoot_reads (e.declared_value.trans hcode.symm)

end EntryImage

/-- Of each attribute that a report needs, the last one counts. -/
theorem Content.foldl_keep (contents : List Content) (found : RootAttributes) :
    contents.foldl keep found =
      { name := (contents.filterMap name?).getLast?.or found.name
        compDir := (contents.filterMap compDir?).getLast?.or found.compDir
        lineOffset :=
          ((contents.filterMap lineTable?).getLast?.map Prod.fst).or found.lineOffset } := by
  induction contents generalizing found with
  | nil => rfl
  | cons c contents ih =>
    rw [List.foldl_cons, ih]
    cases c with
    | name place label =>
      simp only [keep, List.filterMap_cons, name?, compDir?, lineTable?, List.getLast?_cons]
      cases (contents.filterMap name?).getLast? <;> rfl
    | compDir place label =>
      simp only [keep, List.filterMap_cons, name?, compDir?, lineTable?, List.getLast?_cons]
      cases (contents.filterMap compDir?).getLast? <;> rfl
    | lineTable place offset table =>
      simp only [keep, List.filterMap_cons, name?, compDir?, lineTable?, List.getLast?_cons]
      cases (contents.filterMap lineTable?).getLast? <;> rfl
    | other => simp only [keep, List.filterMap_cons, name?, compDir?, lineTable?]

end DwarfUnits
