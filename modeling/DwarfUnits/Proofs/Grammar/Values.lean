import DwarfUnits.Proofs.Grammar.Basic
import DwarfUnits.Proofs.Image.Value

/-! Values of every form: the runs of bytes that are one, and that no other is taken for one. -/
namespace DwarfUnits

variable {src : Source} {pos : ℕ} {run : List UInt8} {unit : UnitHeader}

namespace Form

theorem Layout.skip_follows (layout : Layout) :
    layout.skip.Follows src pos fun run _ => layout.Spells src.order run := by
  cases layout with
  | fixed width => exact Decode.skip_follows width
  | leb128 =>
    refine .discard (Decode.uleb128_follows.imp fun run _ _ hrun => ?_)
    obtain ⟨l, hl, -⟩ := hrun
    exact ⟨l, hl⟩
  | cstring =>
    exact .discard (Decode.cstring_follows.imp fun _ text _ hrun => ⟨text, hrun⟩)
  | counted width =>
    refine (Decode.word_follows width).bind fun count run₁ _ hrun₁ => ?_
    refine (Decode.skip_follows count).imp fun rest _ _ hrest => ?_
    rw [← hrest] at hrun₁
    exact ⟨rest, hrun₁.1, congrArg (· ++ rest) hrun₁.2⟩
  | lebCounted =>
    refine Decode.uleb128_follows.bind fun count run₁ _ hrun₁ => ?_
    refine (Decode.skip_follows count.toNat).imp fun rest _ _ hrest => ?_
    obtain ⟨l, rfl, rfl⟩ := hrun₁
    exact ⟨l, rest, hrest.symm, rfl⟩

/-- The layout that the reader gives to a form is the one that its values are written in. -/
theorem writes_of_spells {order : ByteOrder} {f : Form} (h : (f.layout unit).Spells order run) :
    unit.encoding.Writes order f.code run := by
  cases f with
  | addr => exact .address h
  | refAddr =>
    exact .reference (refAddr_spells_iff.mp h)
  | string =>
    obtain ⟨text, htext, rfl⟩ := h
    exact .text htext
  | block1 | block2 | block4 =>
    obtain ⟨rest, hrest, rfl⟩ := h
    exact .counted (by decide) hrest
  | block | exprloc =>
    obtain ⟨count, rest, hrest, rfl⟩ := h
    exact .lebCounted (by decide) count hrest
  | sdata | udata | refUdata | strx | addrx | loclistx | rnglistx | gnuAddrIndex | gnuStrIndex =>
    obtain ⟨l, rfl⟩ := h
    exact .leb (by decide) l
  | strp | lineStrp | secOffset | strpSup | gnuRefAlt | gnuStrpAlt =>
    exact .offset (by decide) h
  | _ =>
    refine .fixed ?_
    rw [show run.length = _ from h]
    decide

end Form

namespace AttributeValue

/-- What a run of bytes stands for as a value of the form with a code: a text, the place of one, or
a number that may be an offset. -/
def ofRun (order : ByteOrder) (code : UInt64) (run : List UInt8) : AttributeValue :=
  if code = 0x08 then .text run.dropLast
  else if code = 0x0e then .textAt .strings (UInt64.ofNat (order.value run))
  else if code = 0x1f then .textAt .lineStrings (UInt64.ofNat (order.value run))
  else if code ∈ [0x17, 0x06, 0x07] then .offset (UInt64.ofNat (order.value run))
  else .untracked

theorem ofRun_of_ne {order : ByteOrder} {f : Form} (hstring : f ≠ .string) (hstrp : f ≠ .strp)
    (hlineStrp : f ≠ .lineStrp) (hsecOffset : f ≠ .secOffset) (hdata4 : f ≠ .data4)
    (hdata8 : f ≠ .data8) : ofRun order f.code run = .untracked := by
  cases f <;> first | rfl | contradiction

theorem ofRun_eq_text {order : ByteOrder} {code : UInt64} {bytes : List UInt8}
    (h : ofRun order code run = .text bytes) : code = 0x08 ∧ bytes = run.dropLast := by
  unfold ofRun at h
  split at h
  · exact ⟨‹_›, (text.inj h).symm⟩
  split at h
  · cases h
  split at h
  · cases h
  split at h <;> cases h

theorem decodeForm_follows (f : Form) :
    (decodeForm unit f).Follows src pos fun run value =>
      (f.layout unit).Spells src.order run ∧ value = ofRun src.order f.code run := by
  have hoffset {f : UInt64 → AttributeValue} : (f <$> Decode.offset unit.format).Follows src pos
      fun run value => run.length = unit.format.offsetSize ∧
        value = f (UInt64.ofNat (src.order.value run)) :=
    .map (.map ((Decode.word_follows_value _).imp fun run n _ hrun => ⟨hrun.1, by rw [hrun.2]⟩))
  unfold decodeForm
  split
  · refine .map (Decode.cstring_follows.imp fun run text _ hrun => ?_)
    obtain ⟨htext, rfl⟩ := hrun
    exact ⟨⟨text, htext, rfl⟩, congrArg _ List.dropLast_concat.symm⟩
  · exact hoffset
  · exact hoffset
  · exact hoffset
  · refine .map (.map (.map ((Decode.word_follows_value 4).imp fun run n _ hrun => ?_)))
    have hvalue := ByteOrder.value_lt src.order run
    rw [hrun.1, ← hrun.2] at hvalue
    rw [UInt32.toUInt64_ofNat' hvalue, hrun.2]
    exact ⟨hrun.1, rfl⟩
  · refine .map (.map ((Decode.word_follows_value 8).imp fun run n _ hrun => ?_))
    rw [hrun.2]
    exact ⟨hrun.1, rfl⟩
  · refine .bind_pure ((Form.Layout.skip_follows _).imp fun run _ _ hrun => ?_)
    exact ⟨hrun, (ofRun_of_ne ‹_› ‹_› ‹_› ‹_› ‹_› ‹_›).symm⟩

theorem decodeForm_reads {f : Form} (h : (f.layout unit).Spells src.order run) :
    (decodeForm unit f).Reads src pos run (ofRun src.order f.code run) :=
  Decode.reads_of_follows (exists_decodeForm_reads h) (decodeForm_follows f)
    fun _ hrun => hrun.2

end AttributeValue

namespace Encoding

/-- The runs of bytes that are the value of a spec with a form code, and what they stand for. An
indirect value names its form first, which is not the one whose values stand in declarations. -/
inductive Segment (order : ByteOrder) (e : Encoding) (code : UInt64) :
    List UInt8 → AttributeValue → Prop where
  | direct {run : List UInt8} (h : e.Writes order code run) :
    Segment order e code run (.ofRun order code run)
  | indirect {form : Leb} {run : List UInt8} (hcode : code = 0x16) (hform : form.value ≠ 0x21)
      (h : e.Writes order form.value run) :
    Segment order e code (form.bytes ++ run) (.ofRun order form.value run)

/-- A text has no zero byte in it. -/
theorem Segment.zero_not_mem {order : ByteOrder} {code : UInt64} {value : AttributeValue}
    {bytes : List UInt8} (h : unit.encoding.Segment order code run value)
    (hvalue : value = .text bytes) : 0 ∉ bytes := by
  have hwritten : ∀ {code : UInt64} {run : List UInt8}, unit.encoding.Writes order code run →
      AttributeValue.ofRun order code run = .text bytes → 0 ∉ bytes := by
    intro code run hwrites htext
    obtain ⟨rfl, rfl⟩ := AttributeValue.ofRun_eq_text htext
    obtain ⟨f, hf, hspells⟩ := Form.exists_spells hwrites
    obtain rfl : Form.string = f := Option.some.inj hf
    obtain ⟨text, hzero, rfl⟩ := hspells
    rwa [List.dropLast_concat]
  cases h with
  | direct h => exact hwritten h hvalue
  | indirect _ _ h => exact hwritten h hvalue

/-- A run of bytes that is one segment for each spec, in order, and their values. -/
inductive Splits (order : ByteOrder) (e : Encoding) :
    List AttributeSpec → List UInt8 → List AttributeValue → Prop where
  | nil : Splits order e [] [] []
  | cons {spec : AttributeSpec} {specs : List AttributeSpec} {run rest : List UInt8}
      {value : AttributeValue} {values : List AttributeValue}
      (h : e.Segment order spec.form run value) (hrest : Splits order e specs rest values) :
    Splits order e (spec :: specs) (run ++ rest) (value :: values)

theorem Splits.zero_not_mem {order : ByteOrder} {specs : List AttributeSpec}
    {values : List AttributeValue} {bytes : List UInt8}
    (h : unit.encoding.Splits order specs run values) (hmem : .text bytes ∈ values) :
    0 ∉ bytes := by
  induction h with
  | nil => cases hmem
  | cons hvalue _ ih =>
    obtain hhead | htail := List.mem_cons.mp hmem
    · exact hvalue.zero_not_mem hhead.symm
    · exact ih htail

end Encoding

namespace AttributeValue

theorem decodeCode_follows (attr code : UInt64) :
    (decodeCode unit attr code).Follows src pos fun run value =>
      unit.encoding.Writes src.order code run ∧ value = ofRun src.order code run := by
  unfold decodeCode
  split
  · rename_i f hf
    refine (decodeForm_follows f).imp fun run value _ hrun => ?_
    rw [← Form.code_of_ofCode? hf]
    exact ⟨Form.writes_of_spells hrun.1, hrun.2⟩
  · exact .fail

theorem decodeCode_reads {attr code : UInt64} (h : unit.encoding.Writes src.order code run) :
    (decodeCode unit attr code).Reads src pos run (ofRun src.order code run) := by
  obtain ⟨f, hf, hspells⟩ := Form.exists_spells h
  unfold decodeCode
  rw [hf, ← Form.code_of_ofCode? hf]
  exact decodeForm_reads hspells

theorem decode_follows (attr code : UInt64) :
    (decode unit attr code).Follows src pos (unit.encoding.Segment src.order code) := by
  unfold decode
  refine .ite (fun hcode => ?_) fun _ => ?_
  · refine Decode.uleb128_follows.bind fun actual run _ hrun => .ite (fun _ => .fail) fun hne => ?_
    obtain ⟨form, rfl, rfl⟩ := hrun
    refine (decodeCode_follows attr form.value).imp fun rest value _ hrest => ?_
    obtain ⟨hwrites, rfl⟩ := hrest
    exact .indirect hcode hne hwrites
  · refine (decodeCode_follows attr code).imp fun run value _ hrun => ?_
    obtain ⟨hwrites, rfl⟩ := hrun
    exact .direct hwrites

/-- No value is of the form that defers to another. -/
theorem not_writes_indirect {order : ByteOrder} :
    ¬unit.encoding.Writes order Form.indirectCode run := by
  intro h
  obtain ⟨f, hf, -⟩ := Form.exists_spells h
  have hnone : Form.ofCode? Form.indirectCode = none := by decide
  rw [hnone] at hf
  cases hf

theorem decode_reads (attr : UInt64) {code : UInt64} {value : AttributeValue}
    (h : unit.encoding.Segment src.order code run value) :
    (decode unit attr code).Reads src pos run value := by
  unfold decode
  cases h with
  | direct h =>
    have hcode : code ≠ Form.indirectCode := by
      rintro rfl
      exact not_writes_indirect h
    rw [if_neg hcode]
    exact decodeCode_reads h
  | @indirect form run hcode hform h =>
    have hindirect : code = Form.indirectCode := hcode
    have hconstant : form.value ≠ Form.implicitConst.code := hform
    rw [if_pos hindirect]
    apply (Decode.uleb128_reads form).bind
    rw [if_neg hconstant]
    exact decodeCode_reads h

end AttributeValue
end DwarfUnits
