import DwarfUnits.Proofs.Unit.Locality

/-! What a prefix of a section decides: the structures of a unit depend on the bytes taken and on no
others, a section cut among those is told to be too short, and other errors stand whatever follows. -/
namespace DwarfUnits

variable {α : Type}

/-- The bytes that `d` takes decide what it does, in any section and from any position inside. -/
structure Decode.PrefixDetermined (d : Decode α) : Prop where
  /-- The same bytes taken give the same value and the same end, whatever stands around them. -/
  same : ∀ id order bytes bytes' pos a, pos ≤ bytes.size →
    (d ⟨id, order, bytes⟩ pos).result = .ok a →
    (d ⟨id, order, bytes⟩ pos).position ≤ bytes'.size →
    bytes'.extract pos (d ⟨id, order, bytes⟩ pos).position =
      bytes.extract pos (d ⟨id, order, bytes⟩ pos).position →
    (d ⟨id, order, bytes'⟩ pos).result = .ok a ∧
      (d ⟨id, order, bytes'⟩ pos).position = (d ⟨id, order, bytes⟩ pos).position
  /-- A section that is cut among the bytes taken is too short. -/
  cut : ∀ id order bytes pos a, pos ≤ bytes.size →
    (d ⟨id, order, bytes⟩ pos).result = .ok a →
    ∀ m, pos ≤ m → m < (d ⟨id, order, bytes⟩ pos).position →
      ∃ offset needed,
        (d ⟨id, order, bytes.extract 0 m⟩ pos).result = .error (.outOfBounds id offset needed)
  /-- Any error but that the section is too short stands, whatever is appended. -/
  refused : ∀ id order bytes pos e, pos ≤ bytes.size →
    (d ⟨id, order, bytes⟩ pos).result = .error e →
    (∀ offset needed, e ≠ .outOfBounds id offset needed) →
    ∀ more, (d ⟨id, order, bytes ++ more⟩ pos).result = .error e

theorem Source.slice_of_extract {id : SectionId} {order : ByteOrder} {bytes bytes' : ByteArray}
    {pos n : ℕ} (h : bytes'.extract pos (pos + n) = bytes.extract pos (pos + n)) :
    Source.slice ⟨id, order, bytes'⟩ pos n = Source.slice ⟨id, order, bytes⟩ pos n := by
  unfold slice
  rw [h]

/-- A section is its first `m` bytes with the others after them. -/
theorem Source.extend_extract {id : SectionId} {order : ByteOrder} {bytes : ByteArray} {m : ℕ}
    (h : m ≤ bytes.size) :
    Source.extend ⟨id, order, bytes.extract 0 m⟩ (bytes.extract m bytes.size) =
      ⟨id, order, bytes⟩ := by
  have hwhole : bytes.extract 0 m ++ bytes.extract m bytes.size = bytes := by
    rw [ByteArray.extract_append_extract, Nat.zero_min, Nat.max_eq_right h,
      ByteArray.extract_zero_size]
  unfold extend
  rw [hwhole]

theorem Decode.PrefixDetermined.of_carries {d : Decode α} (hcarries : d.Carries 0 d)
    (hrefuses : d.Refuses) : d.PrefixDetermined where
  same id order bytes bytes' pos a hpos h hle hextract := by
    obtain ⟨run, hholds, hnext, hreads⟩ := (hcarries _ pos hpos).of_ok h
    rw [hnext] at hle hextract ⊢
    have hslice : Source.slice ⟨id, order, bytes'⟩ pos run.length = run :=
      (Source.slice_of_extract hextract).trans hholds.slice_eq
    have hholds' : Source.Holds ⟨id, order, bytes'⟩ pos run := hslice ▸ (Source.holds_slice hle).1
    exact hreads ⟨id, order, bytes'⟩ rfl hholds'
  cut id order bytes pos a hpos h m hm hlt := by
    have hrepeats := (hcarries ⟨id, order, bytes⟩ pos hpos).of_ok h
    have hsize : m ≤ bytes.size := Nat.le_of_lt (Nat.lt_of_lt_of_le hlt hrepeats.bounds.2)
    have hcut : (bytes.extract 0 m).size = m := by
      rw [ByteArray.size_extract]
      omega
    have hextend : Source.extend ⟨id, order, bytes.extract 0 m⟩ (bytes.extract m bytes.size) =
        ⟨id, order, bytes⟩ := Source.extend_extract hsize
    have hpos' : pos ≤ (bytes.extract 0 m).size := by omega
    cases hresult : (d ⟨id, order, bytes.extract 0 m⟩ pos).result with
    | ok a' =>
      -- The cut section would decide the end of the whole one.
      have hcutRepeats := (hcarries ⟨id, order, bytes.extract 0 m⟩ pos hpos').of_ok hresult
      have hend := hcutRepeats.bounds.2
      have hsame := (hcutRepeats.within (Source.within_extend _ (bytes.extract m bytes.size))).2
      rw [hextend] at hsame
      simp only [Nat.add_zero] at hsame
      dsimp only at hend
      omega
    | error e =>
      obtain he | he := (hrefuses ⟨id, order, bytes.extract 0 m⟩ (bytes.extract m bytes.size) pos
        hpos').of_error hresult
      · obtain ⟨offset, needed, rfl, -⟩ := he
        exact ⟨offset, needed, rfl⟩
      · rw [hextend, h] at he
        cases he
  refused id order bytes pos e hpos h hother more := by
    obtain he | he := (hrefuses ⟨id, order, bytes⟩ more pos hpos).of_error h
    · obtain ⟨offset, needed, rfl, -⟩ := he
      exact absurd rfl (hother offset needed)
    · exact he

namespace UnitHeader

theorem decode_refuses : decode.Refuses := by
  unfold decode
  refine Decode.Refuses.position.bind Decode.Carries.position fun offset => ?_
  refine (Decode.Refuses.of_overrun fun _ => ⟨_, Decode.initialLength_advances⟩).bind
    Decode.initialLength_carries ?_
  rintro ⟨length, format⟩
  refine .ite (.fail _) (.of_overrun fun src => ?_)
  exact ⟨_, Decode.u16_advances.bind fun version => (layout_advances format version).bind fun _ =>
    Decode.uleb128_advances.bind fun _ => .pure _⟩

end UnitHeader

theorem Declaration.decodeRoot_refuses (unit : UnitHeader) : (decodeRoot unit).Refuses := by
  unfold decodeRoot
  refine (Decode.Refuses.of_overrun fun _ => ⟨_, Decode.uleb128_advances⟩).bind
    Decode.uleb128_carries fun code => .ite (.fail _) (.of_overrun fun src => ?_)
  exact ⟨_, Decode.uleb128_advances.bind fun tag => Decode.u8_advances.bind fun children =>
    (Decode.collect_advances AttributeSpec.decode_advances (by decide)).bind fun _ => .pure _⟩

namespace AttributeValue

theorem decodeCode_refuses (unit : UnitHeader) (attr code : UInt64) :
    (decodeCode unit attr code).Refuses := by
  unfold decodeCode
  split
  · exact .of_overrun fun _ => ⟨_, decodeForm_advances unit _⟩
  · exact .fail _

theorem decode_refuses (unit : UnitHeader) (attr code : UInt64) :
    (decode unit attr code).Refuses := by
  unfold decode
  refine .ite ?_ (decodeCode_refuses unit attr code)
  refine (Decode.Refuses.of_overrun fun _ => ⟨_, Decode.uleb128_advances⟩).bind
    Decode.uleb128_carries fun actual => ?_
  exact .ite (.fail _) (decodeCode_refuses unit attr actual)

end AttributeValue

namespace RootAttributes

variable {s : Sections}

theorem text_refuses (unit : UnitHeader) (spec : AttributeSpec) (value : AttributeValue) :
    (text unit s spec value).Refuses := by
  cases value with
  | text bytes => exact .pure _
  | textAt table offset => exact .ite (.fail _) (Decode.Refuses.decodeAt s table _ _).map
  | offset n => exact .fail _
  | untracked => exact .fail _

theorem set_refuses (unit : UnitHeader) (spec : AttributeSpec) (value : AttributeValue)
    (found : RootAttributes) : (set unit s spec value found).Refuses := by
  have htext : (text unit s spec value).Refuses := text_refuses unit spec value
  unfold set
  refine .ite htext.map (.ite htext.map (.ite ?_ (.pure found)))
  split
  · exact .pure _
  · exact .fail _

theorem step_refuses (unit : UnitHeader) (found : RootAttributes) (spec : AttributeSpec) :
    (step unit s found spec).Refuses := by
  unfold step
  refine (AttributeValue.decode_refuses unit spec.attr spec.form).bind
    (AttributeValue.decode_carries unit 0 spec.attr spec.form) fun value => ?_
  refine Decode.Refuses.position.bind Decode.Carries.position fun _ => ?_
  exact (Decode.Refuses.emit _).bind (.emit _ _) fun _ => set_refuses unit spec value found

theorem decode_refuses (unit : UnitHeader) (specs : List AttributeSpec) :
    (decode unit s specs).Refuses := by
  unfold decode
  generalize empty = found
  induction specs generalizing found with
  | nil => exact .pure found
  | cons spec specs ih =>
    rw [List.foldlM_cons]
    exact (step_refuses unit found spec).bind (step_carries (.refl s) unit 0 found spec) ih

end RootAttributes

theorem LineTable.decode_refuses : decode.Refuses := by
  intro src more pos hpos
  exact (decode_meets hpos).mono (fun _ _ _ => trivial) fun _ _ => Or.inl

/-- A prefix decides each of the structures of a unit: its header, the declaration and the
attributes of its root entry, and the header of its line table. -/
theorem structures_prefixDetermined :
    UnitHeader.decode.PrefixDetermined ∧
    (∀ unit, (Declaration.decodeRoot unit).PrefixDetermined) ∧
    (∀ unit sections specs, (RootAttributes.decode unit sections specs).PrefixDetermined) ∧
    LineTable.decode.PrefixDetermined := by
  refine ⟨?_, fun unit => ?_, fun unit sections specs => ?_, ?_⟩
  · exact .of_carries UnitHeader.decode_carries UnitHeader.decode_refuses
  · exact .of_carries (Declaration.decodeRoot_carries unit 0) (Declaration.decodeRoot_refuses unit)
  · exact .of_carries (RootAttributes.decode_carries (.refl sections) unit 0 specs)
      (RootAttributes.decode_refuses unit specs)
  · exact .of_carries LineTable.decode_carries LineTable.decode_refuses

end DwarfUnits
