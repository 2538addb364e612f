import DwarfUnits.Proofs.Image.Fields
import DwarfUnits.Entry.Attributes

/-! Values of every form as they are written, and how the reader passes over them. -/
namespace DwarfUnits

/-- What the width of a value depends on. -/
structure Encoding where
  format : Format
  version : UInt16
  addressSize : UInt8

def UnitHeader.encoding (h : UnitHeader) : Encoding := ⟨h.format, h.version, h.addressSize⟩

namespace Encoding

/-- Codes of the forms whose values have one width in all units: none for what the declaration
holds, then flags, data, references, signatures and fixed indices. -/
def fixedWidths : List (UInt64 × ℕ) :=
  [(0x19, 0), (0x21, 0),
    (0x0b, 1), (0x0c, 1), (0x11, 1), (0x25, 1), (0x29, 1),
    (0x05, 2), (0x12, 2), (0x26, 2), (0x2a, 2),
    (0x27, 3), (0x2b, 3),
    (0x06, 4), (0x13, 4), (0x1c, 4), (0x28, 4), (0x2c, 4),
    (0x07, 8), (0x14, 8), (0x20, 8), (0x24, 8),
    (0x1e, 16)]

/-- Codes of the forms that hold an offset into a section, of this file or another. -/
def offsetForms : List UInt64 := [0x0e, 0x17, 0x1d, 0x1f, 0x1f20, 0x1f21]

/-- Codes of the forms that hold one LEB128 number: constants, references and indices. -/
def lebForms : List UInt64 := [0x0d, 0x0f, 0x15, 0x1a, 0x1b, 0x22, 0x23, 0x1f01, 0x1f02]

/-- Codes of the blocks that start with a word for their size, and its width. -/
def countedForms : List (UInt64 × ℕ) := [(0x0a, 1), (0x03, 2), (0x04, 4)]

/-- Codes of the blocks and expressions that start with a LEB128 number for their size. -/
def lebCountedForms : List UInt64 := [0x09, 0x18]

/-- The runs of bytes that are a value of the form with a code. -/
inductive Writes (order : ByteOrder) (e : Encoding) : UInt64 → List UInt8 → Prop where
  | fixed {code : UInt64} {run : List UInt8} (h : (code, run.length) ∈ fixedWidths) :
    Writes order e code run
  | address {run : List UInt8} (h : run.length = e.addressSize.toNat) : Writes order e 0x01 run
  /-- References between units took an address in version 2 and before. -/
  | reference {run : List UInt8}
      (h : run.length = if e.version ≤ 2 then e.addressSize.toNat else e.format.offsetSize) :
    Writes order e 0x10 run
  | offset {code : UInt64} {run : List UInt8} (hcode : code ∈ offsetForms)
      (h : run.length = e.format.offsetSize) : Writes order e code run
  | leb {code : UInt64} (hcode : code ∈ lebForms) (l : Leb) : Writes order e code l.bytes
  | text {run : List UInt8} (h : 0 ∉ run) : Writes order e 0x08 (run ++ [0])
  | counted {code : UInt64} {width : ℕ} {run : List UInt8} (hcode : (code, width) ∈ countedForms)
      (h : run.length < 256 ^ width) :
    Writes order e code (order.bytes width run.length ++ run)
  | lebCounted {code : UInt64} {run : List UInt8} (hcode : code ∈ lebCountedForms) (count : Leb)
      (h : count.value.toNat = run.length) : Writes order e code (count.bytes ++ run)

end Encoding

namespace Form

/-- The runs of bytes that have a layout. -/
def Layout.Spells (order : ByteOrder) : Layout → List UInt8 → Prop
  | fixed width, run => run.length = width
  | leb128, run => ∃ l : Leb, run = l.bytes
  | cstring, run => ∃ text, 0 ∉ text ∧ run = text ++ [0]
  | counted width, run =>
    ∃ rest, rest.length < 256 ^ width ∧ run = order.bytes width rest.length ++ rest
  | lebCounted, run => ∃ (count : Leb) (rest : _),
      count.value.toNat = rest.length ∧ run = count.bytes ++ rest

theorem Layout.skip_reads {src : Source} {pos : ℕ} {run : List UInt8} {layout : Layout}
    (h : layout.Spells src.order run) : layout.skip.Reads src pos run () := by
  cases layout with
  | fixed width =>
    exact Decode.skip_reads h
  | leb128 =>
    obtain ⟨l, rfl⟩ := h
    exact (Decode.uleb128_reads l).discard
  | cstring =>
    obtain ⟨text, htext, rfl⟩ := h
    exact (Decode.cstring_reads htext).discard
  | counted width =>
    obtain ⟨rest, hrest, rfl⟩ := h
    exact (Decode.word_reads_bytes hrest).bind (Decode.skip_reads rfl)
  | lebCounted =>
    obtain ⟨count, rest, hrest, rfl⟩ := h
    exact (Decode.uleb128_reads count).bind (Decode.skip_reads hrest.symm)

/-- The reader takes values of the form with a code to have a layout. -/
def Given (unit : UnitHeader) (code : UInt64) (layout : Layout) : Prop :=
  ∃ f, ofCode? code = some f ∧ f.layout unit = layout

theorem Given.spells {order : ByteOrder} {unit : UnitHeader} {code : UInt64} {layout : Layout}
    {run : List UInt8} (h : Given unit code layout) (hrun : layout.Spells order run) :
    ∃ f, ofCode? code = some f ∧ (f.layout unit).Spells order run := by
  obtain ⟨f, hf, rfl⟩ := h
  exact ⟨f, hf, hrun⟩

theorem given_tables (unit : UnitHeader) :
    (∀ p ∈ Encoding.fixedWidths, Given unit p.1 (.fixed p.2)) ∧
    (∀ code ∈ Encoding.offsetForms, Given unit code (.fixed unit.format.offsetSize)) ∧
    (∀ code ∈ Encoding.lebForms, Given unit code .leb128) ∧
    (∀ p ∈ Encoding.countedForms, Given unit p.1 (.counted p.2)) ∧
    ∀ code ∈ Encoding.lebCountedForms, Given unit code .lebCounted := by
  simp only [Encoding.fixedWidths, Encoding.offsetForms, Encoding.lebForms, Encoding.countedForms,
    Encoding.lebCountedForms, List.forall_mem_cons]
  and_intros
  all_goals first | exact ⟨_, rfl, rfl⟩ | simp

theorem refAddr_spells_iff {order : ByteOrder} {unit : UnitHeader} {run : List UInt8} :
    (refAddr.layout unit).Spells order run ↔ run.length =
      if unit.version ≤ 2 then unit.addressSize.toNat else unit.format.offsetSize := by
  rw [layout]
  split <;> rfl

/-- Every written value has the layout that the reader gives to the code of its form. -/
theorem exists_spells {order : ByteOrder} {unit : UnitHeader} {code : UInt64} {run : List UInt8}
    (h : unit.encoding.Writes order code run) :
    ∃ f, ofCode? code = some f ∧ (f.layout unit).Spells order run := by
  obtain ⟨hfixed, hoffset, hleb, hcounted, hlebCounted⟩ := given_tables unit
  cases h with
  | fixed h => exact (hfixed _ h).spells rfl
  | address h => exact ⟨.addr, rfl, h⟩
  | reference h => exact ⟨.refAddr, rfl, refAddr_spells_iff.mpr h⟩
  | offset hcode h => exact (hoffset _ hcode).spells h
  | leb hcode l => exact (hleb _ hcode).spells ⟨l, rfl⟩
  | text h => exact ⟨.string, rfl, _, h, rfl⟩
  | counted hcode h => exact (hcounted _ hcode).spells ⟨_, h, rfl⟩
  | lebCounted hcode count h => exact (hlebCounted _ hcode).spells ⟨count, _, h, rfl⟩

end Form

namespace AttributeValue

variable {src : Source} {pos : ℕ} {run : List UInt8} {unit : UnitHeader}

theorem exists_decodeForm_reads {f : Form} (h : (f.layout unit).Spells src.order run) :
    ∃ value, (decodeForm unit f).Reads src pos run value := by
  unfold decodeForm
  split
  · obtain ⟨text, htext, rfl⟩ := h
    exact ⟨_, (Decode.cstring_reads htext).map rfl⟩
  · exact ⟨_, (Decode.offset_reads_of_length h).map rfl⟩
  · exact ⟨_, (Decode.offset_reads_of_length h).map rfl⟩
  · exact ⟨_, (Decode.offset_reads_of_length h).map rfl⟩
  · exact ⟨_, (((Decode.word_reads h).map rfl).map rfl).map rfl⟩
  · exact ⟨_, ((Decode.word_reads h).map rfl).map rfl⟩
  · exact ⟨_, (Form.Layout.skip_reads h).bind_last (.pure _)⟩

end AttributeValue
end DwarfUnits
