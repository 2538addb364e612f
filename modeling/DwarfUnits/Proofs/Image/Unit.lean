import DwarfUnits.Proofs.Grammar.UnitHeader
import DwarfUnits.Proofs.Image.Entry

/-! Whole units as they are written, and the record that either kind of walk makes of one. -/
namespace DwarfUnits

/-- The root of a unit: an entry, or a code of zero. -/
inductive RootImage where
  | absent (code : Leb) (h : code.value = 0)
  | entry (e : EntryImage)

structure UnitImage extends Encoding where
  /-- The unit type, written from version 5 on. -/
  kind : UInt8
  /-- Written for the unit types that have one, as is the type offset. -/
  signature : UInt64
  typeOffset : UInt64
  abbrevOffset : UInt64
  root : RootImage
  trailing : List UInt8

namespace RootImage

def code : RootImage → Leb
  | absent code _ => code
  | entry e => e.code

def values (order : ByteOrder) (format : Format) : RootImage → List UInt8
  | absent .. => []
  | entry e => e.values order format

def contents : RootImage → List Content
  | absent .. => []
  | entry e => e.contents

/-- The declaration stands where the unit says, and every value fits the unit. -/
def Fits (s : Sections) (e : Encoding) (abbrevOffset : UInt64) : RootImage → Prop
  | absent .. => True
  | entry root => s.Holds .abbrevs abbrevOffset.toNat root.declaration ∧
      ∀ a ∈ root.attributes, a.content.Fits s e

theorem Fits.contents {s : Sections} {e : Encoding} {abbrevOffset : UInt64} {root : RootImage}
    (h : root.Fits s e abbrevOffset) : ∀ c ∈ root.contents, c.Fits s e := by
  intro c hc
  cases root with
  | absent => cases hc
  | entry e =>
    obtain ⟨a, ha, rfl⟩ := List.mem_map.mp hc
    exact h.2 a ha

end RootImage

namespace UnitImage

/-- What a unit type adds to the header. -/
def extra (order : ByteOrder) (u : UnitImage) : List UInt8 :=
  if u.kind = 4 ∨ u.kind = 5 then order.bytes 8 u.signature.toNat
  else if u.kind = 2 ∨ u.kind = 6 then
    order.bytes 8 u.signature.toNat ++ u.format.offsetBytes order u.typeOffset
  else []

/-- What stands between the version and the code of the root entry. -/
def layout (order : ByteOrder) (u : UnitImage) : List UInt8 :=
  if u.version < 5 then u.format.offsetBytes order u.abbrevOffset ++ [u.addressSize]
  else [u.kind] ++ ([u.addressSize] ++
    (u.format.offsetBytes order u.abbrevOffset ++ u.extra order))

/-- What the length of a unit counts. -/
def body (order : ByteOrder) (u : UnitImage) : List UInt8 :=
  order.bytes 2 u.version.toNat ++ (u.layout order ++ (u.root.code.bytes ++
    (u.root.values order u.format ++ u.trailing)))

def encode (order : ByteOrder) (u : UnitImage) : List UInt8 :=
  u.format.lengthBytes order (u.body order).length ++ u.body order

/-- The unit can be written, and what it refers to stands in the sections. -/
structure Fits (s : Sections) (u : UnitImage) : Prop where
  length : (u.body s.order).length < u.format.lengthLimit
  abbrevOffset : u.format.FitsOffset u.abbrevOffset
  root : u.root.Fits s u.toEncoding u.abbrevOffset

def record (offset : ℕ) (u : UnitImage) : UnitRecord where
  offset
  version := u.version
  abbrevOffset := u.abbrevOffset
  addressSize := u.addressSize
  name := (u.root.contents.filterMap Content.name?).getLast?
  compDir := (u.root.contents.filterMap Content.compDir?).getLast?
  lineTable := (u.root.contents.filterMap Content.lineTable?).getLast?.map
    fun (start, table) => table.record start.toNat

/-- The header of a unit at `offset`, field by field. -/
def header (order : ByteOrder) (offset : ℕ) (u : UnitImage) : UnitHeader where
  offset
  format := u.format
  length := UInt64.ofNat (u.body order).length
  version := u.version
  kind := if u.version < 5 then none else some u.kind
  abbrevOffset := u.abbrevOffset
  addressSize := u.addressSize
  rootCode := u.root.code.value

variable {src : Source} {pos : ℕ} {u : UnitImage}

theorem length_extra (order : ByteOrder) (u : UnitImage) :
    (u.extra order).length = UnitHeader.extraSize u.format u.kind := by
  unfold extra UnitHeader.extraSize
  split
  · exact ByteOrder.length_bytes ..
  split
  · rw [List.length_append, ByteOrder.length_bytes, Format.length_offsetBytes]
  · rfl

theorem middle_layout (order : ByteOrder) (h : u.format.FitsOffset u.abbrevOffset) :
    UnitHeader.Middle order u.format u.version (u.layout order)
      (if u.version < 5 then none else some u.kind, u.abbrevOffset, u.addressSize) := by
  unfold layout
  by_cases hversion : u.version < 5
  · rw [if_pos hversion, if_pos hversion]
    exact .old hversion h
  · rw [if_neg hversion, if_neg hversion]
    exact .new (UInt16.not_lt.mp hversion) h (u.length_extra order)

/-- The part of a unit up to the values of its root entry. -/
def headerBytes (order : ByteOrder) (u : UnitImage) : List UInt8 :=
  u.format.lengthBytes order (u.body order).length ++ (order.bytes 2 u.version.toNat ++
    (u.layout order ++ u.root.code.bytes))

theorem encode_eq (order : ByteOrder) (u : UnitImage) :
    u.encode order =
      (u.headerBytes order ++ u.root.values order u.format) ++ u.trailing := by
  simp only [encode, body, headerBytes, List.append_assoc]

theorem extent_header {order : ByteOrder} (offset : ℕ)
    (h : (u.body order).length < u.format.lengthLimit) :
    (u.header order offset).extent = (u.encode order).length := by
  have hlength : (UInt64.ofNat (u.body order).length).toNat = (u.body order).length :=
    UInt64.toNat_ofNat_of_lt' (Nat.lt_of_lt_of_le h u.format.lengthLimit_le)
  change u.format.lengthSize + (UInt64.ofNat (u.body order).length).toNat = _
  rw [hlength, encode, List.length_append, Format.length_lengthBytes]

/-- The header is written as the grammar has it. -/
theorem headerBytes_writtenAs {order : ByteOrder} {offset : ℕ}
    (hlength : (u.body order).length < u.format.lengthLimit)
    (habbrev : u.format.FitsOffset u.abbrevOffset)
    (hend : offset + (u.encode order).length < UnitHeader.offsetLimit) :
    (u.header order offset).WrittenAs order offset (u.headerBytes order) := by
  have hvalue : (u.header order offset).length.toNat = (u.body order).length :=
    UInt64.toNat_ofNat_of_lt' (Nat.lt_of_lt_of_le hlength u.format.lengthLimit_le)
  have hnext : (u.header order offset).next = offset + (u.encode order).length :=
    congrArg (offset + ·) (extent_header offset hlength)
  refine ⟨rfl, hvalue ▸ hlength, UnitHeader.add_extentOf .., hnext ▸ hend, u.layout order,
    u.root.code, middle_layout order habbrev, rfl, ?_⟩
  rw [hvalue]
  rfl

theorem header_reads (hlength : (u.body src.order).length < u.format.lengthLimit)
    (habbrev : u.format.FitsOffset u.abbrevOffset)
    (hend : pos + (u.encode src.order).length < UnitHeader.offsetLimit) :
    UnitHeader.decode.Reads src pos (u.headerBytes src.order) (u.header src.order pos) :=
  UnitHeader.decode_reads (headerBytes_writtenAs hlength habbrev hend)

end UnitImage

namespace UnitRecord

variable {s : Sections} {src : Source} {pos : ℕ} {u : UnitImage}

theorem decodeRoot_reads {unit : UnitHeader} {root : RootImage}
    (hcode : unit.rootCode = root.code.value) (h : root.Fits s unit.encoding unit.abbrevOffset)
    (horder : src.order = s.order) :
    (decodeRoot s unit).Reads src pos (root.values src.order unit.format)
      (root.contents.foldl Content.keep RootAttributes.empty) := by
  unfold decodeRoot
  rw [hcode]
  cases root with
  | absent code hzero =>
    rw [show RootImage.code _ = code from rfl, hzero, if_pos rfl]
    exact Decode.Reads.bind_nil (.emit _) (.pure _)
  | entry e =>
    rw [show RootImage.code _ = e.code from rfl, if_neg e.code_ne]
    exact (Decode.decodeAt_reads h.1 fun _ _ => e.declaration_reads hcode).bind_nil
      (EntryImage.values_reads _ _ h.2 horder)

/-- The table that the last offset points at. -/
theorem table_reads {strictness : Strictness} {contents : List Content} {e : Encoding}
    (h : ∀ c ∈ contents, c.Fits s e) {last : Option (UInt64 × LineTableImage)}
    (hlast : (contents.filterMap Content.lineTable?).getLast? = last) :
    ((last.map Prod.fst).mapM fun offset =>
      s.decodeAt .lines offset.toNat (decodeTable strictness)).Reads src pos []
      (last.map fun (start, table) => table.record start.toNat) := by
  cases last with
  | none => exact .pure none
  | some pair =>
    obtain ⟨start, table⟩ := pair
    obtain ⟨c, hc, htable⟩ := List.mem_filterMap.mp (List.mem_of_getLast? hlast)
    have hholds : s.Holds .lines start.toNat (table.encode s.order) := by
      cases c with
      | name | compDir | other => cases htable
      | lineTable place offset table' =>
        obtain ⟨rfl, rfl⟩ : offset = start ∧ table' = table := by
          simpa [Content.lineTable?] using htable
        exact (h _ hc).2
    refine (Decode.decodeAt_reads hholds fun other hother => ?_).map rfl
    rw [← Sections.order_of_source hother]
    exact decodeTable_reads strictness table

/-- A unit is decoded to its record, up to whatever follows its root entry. -/
theorem decode_reads (strictness : Strictness) (h : u.Fits s) (horder : src.order = s.order)
    (hend : pos + (u.encode src.order).length < UnitHeader.offsetLimit) :
    (decode s strictness).Reads src pos
      (u.headerBytes src.order ++ u.root.values src.order u.format)
      (u.header src.order pos, u.record pos) := by
  unfold decode
  apply (u.header_reads (horder ▸ h.length) h.abbrevOffset hend).bind
  apply Decode.Reads.bind_nil (.emit _)
  apply (decodeRoot_reads rfl h.root horder).bind_last
  simp only [Content.foldl_keep, RootAttributes.empty, Option.or_none]
  exact (table_reads h.root.contents rfl).bind_nil (.pure _)

end UnitRecord
end DwarfUnits
