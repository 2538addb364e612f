import DwarfUnits.Proofs.Grammar.Basic
import DwarfUnits.Proofs.Unit.Bounds

/-! Unit headers as they are written, and that nothing else is taken for one. -/
namespace DwarfUnits.UnitHeader

/-- The size of what a unit type adds to its header. -/
def extraSize (format : Format) (kind : UInt8) : ℕ :=
  if kind = 4 ∨ kind = 5 then 8
  else if kind = 2 ∨ kind = 6 then 8 + format.offsetSize
  else 0

/-- The bytes between the version and the root code, with the unit type, the abbreviation offset and
the address size that they give. -/
inductive Middle (order : ByteOrder) (format : Format) (version : UInt16) :
    List UInt8 → Option UInt8 × UInt64 × UInt8 → Prop where
  | old {abbrevOffset : UInt64} {addressSize : UInt8} (hversion : version < 5)
      (hfits : format.FitsOffset abbrevOffset) :
    Middle order format version (format.offsetBytes order abbrevOffset ++ [addressSize])
      (none, abbrevOffset, addressSize)
  | new {abbrevOffset : UInt64} {addressSize kind : UInt8} {extra : List UInt8}
      (hversion : 5 ≤ version) (hfits : format.FitsOffset abbrevOffset)
      (hextra : extra.length = extraSize format kind) :
    Middle order format version
      ([kind] ++ ([addressSize] ++ (format.offsetBytes order abbrevOffset ++ extra)))
      (some kind, abbrevOffset, addressSize)

/-- `run` is the header `h` as it is written at `pos`. -/
structure WrittenAs (order : ByteOrder) (pos : ℕ) (run : List UInt8) (h : UnitHeader) : Prop where
  offset : h.offset = pos
  /-- A length of four bytes is not the word that announces eight more. -/
  length : h.length.toNat < h.format.lengthLimit
  next : h.next = pos + (2 * h.format.offsetSize - 4) + h.length.toNat
  fits : h.next < 2 ^ 64
  parts : ∃ (middle : List UInt8) (code : Leb),
    Middle order h.format h.version middle (h.kind, h.abbrevOffset, h.addressSize) ∧
    code.value = h.rootCode ∧
    run = h.format.lengthBytes order h.length.toNat ++
      (order.bytes 2 h.version.toNat ++ (middle ++ code.bytes))

variable {src : Source} {pos : ℕ}

theorem lengthSize_eq (format : Format) : format.lengthSize = 2 * format.offsetSize - 4 := by
  cases format <;> rfl

theorem add_extentOf (start : ℕ) (format : Format) (length : UInt64) :
    start + extentOf format length = start + (2 * format.offsetSize - 4) + length.toNat := by
  rw [extentOf, lengthSize_eq, Nat.add_assoc]

theorem skipExtra_follows (format : Format) (kind : UInt8) (hpos : pos ≤ src.bytes.size) :
    (skipExtra format kind).Follows src pos fun run _ => run.length = extraSize format kind := by
  unfold skipExtra extraSize
  split
  · exact Decode.skip_follows 8
  split
  · refine (Decode.skip_follows 8).bind fun _ signature _ hsignature => ?_
    refine .discard ((Decode.offset_follows format).imp fun run n _ hrun => ?_)
    rw [List.length_append, hsignature, hrun.2, Format.length_offsetBytes]
  · exact .pure hpos rfl

theorem skipExtra_reads {format : Format} {kind : UInt8} {extra : List UInt8}
    (h : extra.length = extraSize format kind) :
    (skipExtra format kind).Reads src pos extra () := by
  unfold skipExtra
  unfold extraSize at h
  split
  · rw [if_pos ‹_›] at h
    exact Decode.skip_reads h
  rw [if_neg ‹_›] at h
  split
  · rw [if_pos ‹_›] at h
    obtain ⟨signature, typeOffset, rfl, hsignature, htype⟩ :
        ∃ signature typeOffset, extra = signature ++ typeOffset ∧ signature.length = 8 ∧
          typeOffset.length = format.offsetSize := by
      refine ⟨extra.take 8, extra.drop 8, (List.take_append_drop 8 extra).symm, ?_, ?_⟩
      · rw [List.length_take]
        omega
      · rw [List.length_drop]
        omega
    exact (Decode.skip_reads hsignature).bind (Decode.offset_reads_of_length htype).discard
  · rw [if_neg ‹_›] at h
    rw [List.length_eq_zero_iff.mp h]
    exact .pure ()

theorem layout_follows (format : Format) (version : UInt16) :
    (layout format version).Follows src pos (Middle src.order format version) := by
  unfold layout
  refine .ite (fun hversion => ?_) fun hversion => ?_
  · refine (Decode.offset_follows format).bind fun abbrevOffset run _ hrun => ?_
    refine .bind_pure (Decode.u8_follows.imp fun rest addressSize _ hrest => ?_)
    rw [hrun.2, hrest]
    exact .old hversion hrun.1
  · refine Decode.u8_follows.bind fun kind run₁ _ hrun₁ => ?_
    refine Decode.u8_follows.bind fun addressSize run₂ _ hrun₂ => ?_
    refine (Decode.offset_follows format).bind fun abbrevOffset run₃ hsize hrun₃ => ?_
    refine .bind_pure ((skipExtra_follows format kind hsize).imp fun extra _ _ hextra => ?_)
    rw [hrun₁, hrun₂, hrun₃.2]
    exact .new (UInt16.not_lt.mp hversion) hrun₃.1 hextra

theorem layout_reads {format : Format} {version : UInt16} {middle : List UInt8}
    {fields : Option UInt8 × UInt64 × UInt8} (h : Middle src.order format version middle fields) :
    (layout format version).Reads src pos middle fields := by
  unfold layout
  cases h with
  | old hversion hfits =>
    rw [if_pos hversion]
    exact (Decode.offset_reads hfits).bind ((Decode.u8_reads _).map rfl)
  | new hversion hfits hextra =>
    rw [if_neg (UInt16.not_lt.mpr hversion)]
    refine (Decode.u8_reads _).bind ((Decode.u8_reads _).bind ?_)
    exact (Decode.offset_reads hfits).bind ((skipExtra_reads hextra).map rfl)

theorem decode_follows : decode.Follows src pos (WrittenAs src.order pos) := by
  unfold decode
  refine .position_bind (Decode.initialLength_follows.bind fun (length, format) run₁ _ hrun₁ => ?_)
  refine .ite (fun _ => .fail) fun hlimit => ?_
  refine Decode.u16_follows.bind fun version run₂ _ hrun₂ => ?_
  refine (layout_follows format version).bind fun fields middle _ hmiddle => ?_
  refine .bind_pure (Decode.uleb128_follows.imp fun run₃ rootCode _ hrun₃ => ?_)
  obtain ⟨code, hcode, hvalue⟩ := hrun₃
  refine ⟨rfl, hrun₁.1, add_extentOf .., Nat.lt_of_not_le hlimit, middle, code, hmiddle,
    hvalue.symm, ?_⟩
  rw [hrun₁.2, hrun₂, hcode]

theorem decode_reads {run : List UInt8} {h : UnitHeader} (hrun : h.WrittenAs src.order pos run) :
    decode.Reads src pos run h := by
  obtain ⟨rfl, hlength, hnext, hfits, middle, code, hmiddle, hcode, rfl⟩ := hrun
  have hlimit : ¬offsetLimit ≤ h.offset + extentOf h.format h.length := Nat.not_le.mpr hfits
  have hlen : Decode.initialLength.Reads src h.offset _ _ := Decode.initialLength_reads hlength
  rw [UInt64.ofNat_toNat] at hlen
  unfold decode
  apply Decode.Reads.bind_nil .position
  apply hlen.bind
  dsimp only
  rw [if_neg hlimit]
  apply (Decode.u16_reads h.version).bind
  apply (layout_reads hmiddle).bind
  apply (Decode.uleb128_reads code).map
  rw [hcode]

/-- The length at `pos` is complete, and the end of its unit does not fit in 64 bits. -/
def Overflows (src : Source) (pos : ℕ) (length : UInt64) : Prop :=
  ∃ format : Format, length.toNat < format.lengthLimit ∧
    src.Holds pos (format.lengthBytes src.order length.toNat) ∧
    2 ^ 64 ≤ pos + (2 * format.offsetSize - 4) + length.toNat

theorem decode_fails (hpos : pos ≤ src.bytes.size) :
    (decode src pos).Meets (fun _ _ => True) fun e _ =>
      src.Overrun e ∨ ∃ length, e = .malformedUnit pos length ∧ Overflows src pos length := by
  unfold decode
  rw [Decode.position_bind]
  have hlength := (Decode.initialLength_advances pos hpos).and Decode.initialLength_follows
  refine (hlength.mono (fun _ _ h => h) fun _ _ h => Or.inl h.1).bind ?_
  rintro ⟨length, format⟩ next ⟨⟨-, hsize⟩, run, hholds, rfl, hlt, rfl⟩
  refine .ite (fun hlimit => ?_) fun _ => ?_
  · rw [add_extentOf] at hlimit
    exact Or.inr ⟨length, rfl, format, hlt, hholds, hlimit⟩
  · refine ((Decode.u16_advances.bind fun version =>
      (layout_advances format version).bind fun _ => Decode.uleb128_advances.bind fun _ =>
        .pure _) _ hsize).mono (fun _ _ _ => trivial) fun _ _ => Or.inl

/-- A complete length is judged before anything after it is read. -/
theorem decode_of_overflows {length : UInt64} (h : Overflows src pos length) :
    (decode src pos).result = .error (.malformedUnit pos length) := by
  obtain ⟨format, hlt, hholds, hlimit⟩ := h
  have hread := Decode.initialLength_reads hlt hholds
  rw [UInt64.ofNat_toNat] at hread
  have hextent : offsetLimit ≤ pos + extentOf format length := by
    rw [add_extentOf]
    exact hlimit
  unfold decode
  rw [Decode.position_bind, Decode.bind_ok hread.1]
  dsimp only
  rw [if_pos hextent]
  rfl

/-- A header is decoded from the bytes of one of the layouts, to exactly the fields that stand in
them, and from nothing else. Otherwise the end of the unit does not fit in 64 bits, which the length
alone decides, or the section is too short. -/
theorem accepts_exactly_layouts (src : Source) {pos : ℕ} (hpos : pos ≤ src.bytes.size) :
    decode.Parses src pos (WrittenAs src.order pos) ∧
    (∀ h, (decode src pos).result = .ok h → h.offset = pos ∧ pos < h.next) ∧
    (∀ offset length, (decode src pos).result = .error (.malformedUnit offset length) ↔
      offset = pos ∧ Overflows src pos length) ∧
    ∀ e, (decode src pos).result = .error e →
      (∃ length, e = .malformedUnit pos length) ∨ src.Overrun e := by
  refine ⟨decode_follows.parses fun _ _ => decode_reads, fun h hok => ?_, fun offset length => ?_,
    fun e he => ?_⟩
  · obtain ⟨run, -, -, hwritten⟩ := decode_follows.of_ok hok
    have hsize : 4 ≤ h.format.offsetSize := by cases h.format <;> decide
    have hnext := hwritten.next
    exact ⟨hwritten.offset, by omega⟩
  · constructor
    · intro herror
      obtain ⟨_, _, hoverrun, -⟩ | ⟨_, hsame, hoverflows⟩ := (decode_fails hpos).of_error herror
      · cases hoverrun
      · obtain ⟨rfl, rfl⟩ := Error.malformedUnit.inj hsame
        exact ⟨rfl, hoverflows⟩
    · rintro ⟨rfl, hoverflows⟩
      exact decode_of_overflows hoverflows
  · obtain hoverrun | ⟨length, hsame, -⟩ := (decode_fails hpos).of_error he
    · exact Or.inr hoverrun
    · exact Or.inl ⟨length, hsame⟩

/-- A 64-bit header of a type unit, and a length that is too large with nothing after it. -/
theorem accepts_exactly_layouts_sample :
    (decode ⟨.info, .big, ⟨#[9, 255, 255, 255, 255, 0, 0, 0, 0, 0, 0, 0, 40, 0, 5, 2, 8,
      0, 0, 0, 0, 0, 0, 0, 7, 1, 2, 3, 4, 5, 6, 7, 8, 0, 0, 0, 0, 0, 0, 0, 36, 0x81, 0]⟩⟩ 1).result =
        .ok ⟨1, .dwarf64, 40, 5, some 2, 7, 8, 1⟩ ∧
    (decode ⟨.info, .little, ⟨#[9, 255, 255, 255, 255, 243, 255, 255, 255, 255, 255, 255, 255]⟩⟩
      1).result = .error (.malformedUnit 1 0xfffffffffffffff3) := by
  constructor
  · have hextra : ([1, 2, 3, 4, 5, 6, 7, 8, 0, 0, 0, 0, 0, 0, 0, 36] : List UInt8).length =
        extraSize .dwarf64 2 := rfl
    have hmiddle : Middle .big .dwarf64 5 _ (some 2, 7, 8) := .new (by decide) (by decide) hextra
    exact (((accepts_exactly_layouts _ (by decide)).1 _ _).mpr ⟨_, ⟨[9], [], rfl, rfl⟩, rfl,
      rfl, by decide, rfl, by decide, _, ⟨[1], 0⟩, hmiddle, rfl, rfl⟩).1
  · exact ((accepts_exactly_layouts _ (by decide)).2.2.1 _ _).mpr ⟨rfl, .dwarf64, by decide,
      ⟨[9], [], rfl, rfl⟩, by decide⟩

end DwarfUnits.UnitHeader
