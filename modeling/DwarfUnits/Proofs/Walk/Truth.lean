import DwarfUnits.Proofs.Unit.Bounds
import DwarfUnits.Proofs.Walk.Steps
import Mathlib.Control.Monad.Basic

/-! Every error of a walk says what is so of the sections and of the unit at which it stopped. -/
namespace DwarfUnits

/-- What an error claims of the sections and of the unit at `unit` holds. -/
def Error.Truthful (s : Sections) (strictness : Strictness) (unit : Nat) : Error → Prop
  | .outOfBounds id offset needed => ∃ bytes, s.get? id = some bytes ∧
      (needed = 0 ∧ bytes.size < offset ∨
        0 < needed ∧ offset ≤ bytes.size ∧ bytes.size < offset + needed)
  | .malformedUnit offset length => offset = unit ∧ UInt64.size ≤ offset + 12 + length.toNat
  | .abbrevMismatch offset abbrevOffset expected found => offset = unit ∧ expected ≠ 0 ∧
      found ≠ expected ∧ abbrevOffset.toNat ≤ s.abbrevs.size
  | .unknownForm offset _ _ => offset = unit
  | .missingStringTable offset table => offset = unit ∧
      (table = .strings ∨ table = .lineStrings) ∧ s.get? table = none
  | .headerLengthMismatch offset declared consumed => strictness = .strict ∧
      offset ≤ s.lines.size ∧ declared.toNat ≠ consumed ∧ ∃ h : LineHeader,
        (LineTable.decode ⟨.lines, s.order, s.lines⟩ offset).result = .ok (.supported h) ∧
          h.headerLength = declared ∧ h.consumed = consumed
  | .missingSection _ | .compressedSection _ | .container _ | .file _ => False

variable {s : Sections} {strictness : Strictness} {unit : Nat} {src : Source}

theorem Source.Overrun.truthful {id : SectionId} {bytes : ByteArray} {e : Error}
    (hs : s.get? id = some bytes) (h : Source.Overrun ⟨id, s.order, bytes⟩ e) :
    e.Truthful s strictness unit := by
  obtain ⟨offset, needed, rfl, hpos, hstart, hend⟩ := h
  exact ⟨bytes, hs, Or.inr ⟨hpos, hstart, hend⟩⟩

/-- Decoding in another section that is there: a start past its end is told as it is. -/
theorem decodeAt_advances_truthful {α : Type} {id : SectionId} {bytes : ByteArray} {offset : Nat}
    {d : Decode α} (hs : s.get? id = some bytes)
    (hd : offset ≤ bytes.size → (d ⟨id, s.order, bytes⟩ offset).Meets (fun _ _ => True)
      (fun e _ => e.Truthful s strictness unit)) :
    (s.decodeAt id offset d).Advances src 0 (·.Truthful s strictness unit) := by
  intro pos hpos
  refine Decode.decodeAt_meets hs (fun hpast => ⟨bytes, hs, Or.inl ⟨rfl, hpast⟩⟩) fun hle => ?_
  exact (hd hle).mono (fun _ _ _ => ⟨Nat.le_refl _, hpos⟩) fun _ _ he => he

namespace RootAttributes

theorem text_truthful (header : UnitHeader) (spec : AttributeSpec) {value : AttributeValue}
    (hvalue : value.Tabled) :
    (text header s spec value).Advances src 0 (·.Truthful s strictness header.offset) := by
  cases value with
  | text bytes => exact .pure _
  | textAt table offset =>
    refine .ite (fun habsent => .fail ⟨rfl, hvalue, by simpa using habsent⟩)
      fun hpresent => .map ?_
    obtain ⟨bytes, hbytes⟩ := Option.ne_none_iff_exists'.mp (by simpa using hpresent)
    refine decodeAt_advances_truthful hbytes fun hle => ?_
    exact (Decode.cstring_advances _ hle).mono (fun _ _ _ => trivial)
      fun _ _ he => Source.Overrun.truthful hbytes he
  | offset n => exact .fail rfl
  | untracked => exact .fail rfl

theorem set_truthful (header : UnitHeader) (spec : AttributeSpec) {value : AttributeValue}
    (hvalue : value.Tabled) (found : RootAttributes) :
    (set header s spec value found).Advances src 0 (·.Truthful s strictness header.offset) := by
  have htext : (text header s spec value).Advances src 0 (·.Truthful s strictness header.offset) :=
    text_truthful header spec hvalue
  unfold set
  refine .ite (fun _ => htext.bind fun _ => .pure _) fun _ => ?_
  refine .ite (fun _ => htext.bind fun _ => .pure _) fun _ => ?_
  refine .ite (fun _ => ?_) fun _ => .pure _
  split
  · exact .pure _
  · exact .fail rfl

theorem step_truthful {header : UnitHeader} (hs : s.get? src.id = some src.bytes)
    (horder : src.order = s.order) (found : RootAttributes) (spec : AttributeSpec) :
    (step header s found spec).Advances src 0 (·.Truthful s strictness header.offset) := by
  have hvalue : (AttributeValue.decode header spec.attr spec.form).Advances src 0
      (·.Truthful s strictness header.offset) := by
    refine (AttributeValue.decode_advances header spec.attr spec.form).weaken fun e he => ?_
    obtain he | ⟨attr, form, rfl⟩ := he
    · exact Source.Overrun.truthful hs (horder ▸ he)
    · rfl
  unfold step
  exact hvalue.bind_of (AttributeValue.decode_tabled header spec.attr spec.form) fun value hv =>
    .seq .position fun position => .seq (.emit _) fun _ => set_truthful header spec hv found

theorem decode_truthful {header : UnitHeader} (hs : s.get? src.id = some src.bytes)
    (horder : src.order = s.order) (specs : List AttributeSpec) :
    (decode header s specs).Advances src 0 (·.Truthful s strictness header.offset) := by
  unfold decode
  generalize empty = found
  induction specs generalizing found with
  | nil => exact .pure found
  | cons spec specs ih => exact (step_truthful hs horder found spec).seq ih

end RootAttributes

namespace UnitRecord

theorem decodeRoot_truthful (header : UnitHeader) (hs : s.get? src.id = some src.bytes)
    (horder : src.order = s.order) :
    (decodeRoot s header).Advances src 0 (·.Truthful s strictness header.offset) := by
  unfold decodeRoot
  refine .ite (fun _ => .seq (.emit _) fun _ => .pure _) fun hcode => ?_
  refine .seq (decodeAt_advances_truthful rfl fun hle => ?_)
    fun declaration => RootAttributes.decode_truthful hs horder declaration.specs
  refine (Declaration.decodeRoot_advances header _ hle).mono (fun _ _ _ => trivial) ?_
  rintro e _ (he | ⟨found, rfl, hfound⟩)
  · exact Source.Overrun.truthful rfl he
  · exact ⟨rfl, hcode, hfound, hle⟩

theorem tableStatus_of_eq {header : LineHeader}
    (h : header.consumed = header.headerLength.toNat) :
    tableStatus strictness header = pure .decoded := by
  simp [tableStatus, LineHeader.validate, h]

theorem tableStatus_lenient {header : LineHeader}
    (h : header.consumed ≠ header.headerLength.toNat) :
    tableStatus .lenient header = (do
      Decode.emit (.unreliableLineTable header.mismatch)
      return .headerLengthMismatch header.headerLength header.consumed) := by
  simp [tableStatus, LineHeader.validate, h, LineHeader.mismatch, Error.isUnitLocal]

theorem tableStatus_strict {header : LineHeader}
    (h : header.consumed ≠ header.headerLength.toNat) :
    tableStatus .strict header = Decode.fail header.mismatch := by
  simp [tableStatus, LineHeader.validate, h]

/-- A line table with a wrong header length is an error in a strict walk only. -/
theorem decodeTable_truthful {offset : Nat} (hle : offset ≤ s.lines.size) :
    (decodeTable strictness ⟨.lines, s.order, s.lines⟩ offset).Meets (fun _ _ => True)
      (fun e _ => e.Truthful s strictness unit) := by
  unfold decodeTable
  refine (((LineTable.decode_meets hle).and (.self _)).mono (fun _ _ h => h)
    fun _ _ h => Source.Overrun.truthful rfl h.1).bind ?_
  rintro (header | ⟨start, version⟩) next ⟨⟨-, -, htable⟩, hresult⟩
  · suffices hstatus : (tableStatus strictness header ⟨.lines, s.order, s.lines⟩ next).Meets
        (fun _ _ => True) (fun e _ => e.Truthful s strictness unit) from
      hstatus.bind fun _ _ _ => trivial
    by_cases hlength : header.consumed = header.headerLength.toNat
    · rw [tableStatus_of_eq hlength]
      trivial
    · cases strictness with
      | lenient =>
        rw [tableStatus_lenient hlength]
        trivial
      | strict =>
        rw [tableStatus_strict hlength]
        exact ⟨rfl, htable.1 ▸ hle, Ne.symm hlength, header, htable.1 ▸ hresult, rfl, rfl⟩
  · trivial

theorem decodeLines_truthful (root : RootAttributes) :
    (root.lineOffset.mapM fun offset =>
      s.decodeAt .lines offset.toNat (decodeTable strictness) : Decode _).Advances src 0
      (·.Truthful s strictness unit) := by
  cases root.lineOffset with
  | none => exact .pure _
  | some offset =>
    exact (decodeAt_advances_truthful rfl fun hle =>
      (decodeTable_truthful hle).mono (fun _ _ _ => trivial) fun _ _ he => he).map

/-- A unit takes twelve bytes at least and is told of as it stands; it fails with the truth. -/
theorem decode_meets (hle : unit ≤ s.info.size) :
    (decode s strictness ⟨.info, s.order, s.info⟩ unit).Meets
      (fun (header, record) _ => record.offset = unit ∧ header.offset = unit ∧
        header.next < UnitHeader.offsetLimit ∧ unit + 12 ≤ s.info.size ∧
        (UnitHeader.decode ⟨.info, s.order, s.info⟩ unit).result = .ok header)
      (fun e _ => e.Truthful s strictness unit) := by
  unfold decode
  refine (((UnitHeader.decode_meets hle).and (.self _)).mono (fun _ _ h => h) ?_).bind ?_
  · rintro e next ⟨he | ⟨length, rfl, hlimit⟩, -⟩
    · exact Source.Overrun.truthful rfl he
    · exact ⟨rfl, hlimit⟩
  · rintro header p₁ ⟨⟨rfl, hnext, htwelve, hsize⟩, hresult⟩
    refine Outcome.Meets.bind (Decode.Advances.emit _ p₁ hsize) fun _ p₂ h₂ => ?_
    refine (decodeRoot_truthful header rfl rfl p₂ h₂.2).bind fun root p₃ h₃ => ?_
    refine (decodeLines_truthful root p₃ h₃.2).bind fun lineTable p₄ h₄ => ?_
    exact ⟨rfl, rfl, hnext, Nat.le_trans htwelve hsize, hresult⟩

end UnitRecord

namespace Walker

variable {w : Walker}

theorem unit_of_ok {header : UnitHeader} {record : UnitRecord} (h : w.unit = .ok (header, record))
    (hle : w.offset ≤ w.sections.info.size) :
    record.offset = w.offset ∧ header.offset = w.offset ∧
      header.next < UnitHeader.offsetLimit ∧ w.offset + 12 ≤ w.sections.info.size ∧
      (UnitHeader.decode w.source w.offset).result = .ok header :=
  (UnitRecord.decode_meets hle).of_ok h

theorem unit_of_error {e : Error} (h : w.unit = .error e) (hle : w.offset ≤ w.sections.info.size) :
    e.Truthful w.sections w.strictness w.offset :=
  (UnitRecord.decode_meets hle).of_error h

/-- Every step that fails tells the truth of the unit where it leaves the walker. -/
theorem steps_truthful (s : Sections) (strictness : Strictness) :
    ∀ t ∈ (start s strictness).steps, ∀ e, t.item = .error e →
      e.Truthful s strictness t.walker.offset := by
  refine forall_start_steps _ ?_
  rintro w t rfl rfl hnext e' he
  obtain ⟨-, hlt, ⟨header, record, -, hitem, hw⟩ | ⟨e, hunit, hitem, hw⟩⟩ := next_cases hnext
  · rw [hitem] at he
    cases he
  · obtain rfl : e = e' := by simpa [hitem] using he
    rw [hw]
    exact unit_of_error hunit (Nat.le_of_lt hlt)

end Walker

/-- A walk stops only with the truth, at the offset of the unit that it could not take. -/
theorem walk_error_truthful (s : Sections) (strictness : Strictness) :
    (∀ t ∈ (Walker.start s strictness).steps, ∀ e, t.item = .error e →
      e.Truthful s strictness t.walker.offset) ∧
    ∀ e, (walk s strictness).1 = .error e ↔
      ∃ t ∈ (Walker.start s strictness).steps, t.item = .error e :=
  ⟨Walker.steps_truthful s strictness, fun _ => walk_error_iff⟩

/-- One unit, whose line table declares nine bytes and has seven. -/
def Sections.misdeclared : Sections where
  order := .little
  info := ⟨#[12, 0, 0, 0, 4, 0, 0, 0, 0, 0, 8, 1, 0, 0, 0, 0]⟩
  abbrevs := ⟨#[1, 0x11, 0, 0x10, 0x17, 0, 0]⟩
  lines := ⟨#[0, 0, 0, 0, 2, 0, 9, 0, 0, 0, 1, 1, 0, 1, 1, 0, 0]⟩
  strings := none
  lineStrings := none

theorem walk_error_truthful_misdeclared :
    ∃ t ∈ (Walker.start .misdeclared .strict).steps,
      t.item = .error (.headerLengthMismatch 0 9 7) ∧
        (Error.headerLengthMismatch 0 9 7).Truthful .misdeclared .strict t.walker.offset := by
  obtain ⟨htrue, herror⟩ := walk_error_truthful .misdeclared .strict
  obtain ⟨t, ht, hitem⟩ := (herror (.headerLengthMismatch 0 9 7)).mp (by decide +kernel)
  exact ⟨t, ht, hitem, htrue t ht _ hitem⟩

end DwarfUnits
