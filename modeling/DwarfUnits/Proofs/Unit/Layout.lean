import DwarfUnits.Proofs.Grammar.LineTable

/-! Where the parts of a line table header stand in its section, up to the byte that ends its files. -/
namespace DwarfUnits

variable {α : Type} {src : Source} {pos : ℕ}

namespace Decode

/-- The items of `step` from `pos` on, one after another; what ends them stands at `stop`. -/
inductive Lists (step : Decode (Option α)) (src : Source) : ℕ → List α → ℕ → Prop
  | stop {pos : ℕ} (h : (step src pos).result = .ok none) : Lists step src pos [] pos
  | item {pos stop : ℕ} {a : α} {items : List α} (h : (step src pos).result = .ok (some a))
      (hrest : Lists step src (step src pos).position items stop) :
      Lists step src pos (a :: items) stop

/-- A step that ends a list takes a zero byte. -/
def Closes (step : Decode (Option α)) (src : Source) : Prop :=
  ∀ pos ≤ src.bytes.size,
    (step src pos).Gives fun item next => item = none → src.Holds pos [0] ∧ next = pos + 1

theorem collect_lists {step : Decode (Option α)} (hmoves : step.Advances src 1 fun _ => True)
    (hcloses : step.Closes src) (hpos : pos ≤ src.bytes.size) :
    (collect step src pos).Gives fun items next =>
      ∃ stop, step.Lists src pos items stop ∧ pos ≤ stop ∧ src.Holds stop [0] ∧ next = stop + 1 := by
  -- Every item leaves less of the section for the rest.
  induction hn : src.bytes.size - pos using Nat.strongRecOn generalizing pos with
  | ind n ih =>
    rw [collect_apply (hmoves pos hpos).gives]
    have hstep := ((hmoves pos hpos).and (hcloses pos hpos)).gives_self
    refine hstep.bind ?_
    rintro item _ ⟨⟨⟨hmid, hsize⟩, hclosed⟩, hresult, rfl⟩
    cases item with
    | none =>
      obtain ⟨hzero, hnext⟩ := hclosed rfl
      exact ⟨pos, .stop hresult, Nat.le_refl _, hzero, hnext⟩
    | some a =>
      have hrest := ih (src.bytes.size - (step src pos).position) (by omega) hsize rfl
      refine .map (hrest.imp ?_)
      rintro items next ⟨stop, hlists, hle, hzero, hnext⟩
      exact ⟨stop, .item hresult hlists, by omega, hzero, hnext⟩

theorem closes_of_follows {ι : Type} {step : Decode (Option α)} {write : ι → List UInt8}
    {item : ι → α} (h : ∀ pos, step.Follows src pos (Element (· = [0]) write item)) :
    step.Closes src := by
  intro pos _
  refine Outcome.Meets.imp (h pos) fun found next hrun hnone => ?_
  obtain ⟨run, hholds, hnext, hclosed⟩ := hrun
  subst hnone
  obtain rfl : run = [0] := hclosed
  exact ⟨hholds, hnext⟩

theorem word_gives (n : ℕ) (hpos : pos ≤ src.bytes.size) :
    (word n src pos).Gives fun _ next => next = pos + n ∧ next ≤ src.bytes.size :=
  (take_meets n hpos).gives.map

theorem u8_gives (hpos : pos ≤ src.bytes.size) :
    (u8 src pos).Gives fun _ next => next = pos + 1 ∧ next ≤ src.bytes.size :=
  (word_gives 1 hpos).map

theorem u16_gives (hpos : pos ≤ src.bytes.size) :
    (u16 src pos).Gives fun _ next => next = pos + 2 ∧ next ≤ src.bytes.size :=
  (word_gives 2 hpos).map

theorem initialLength_gives (hpos : pos ≤ src.bytes.size) :
    (initialLength src pos).Gives fun (_, format) next =>
      next = pos + format.lengthSize ∧ next ≤ src.bytes.size := by
  have hfirst : (u32 src pos).Gives fun _ next => next = pos + 4 ∧ next ≤ src.bytes.size :=
    (word_gives 4 hpos).map
  refine hfirst.bind fun first next ⟨hnext, hsize⟩ => .ite (fun _ => ?_) fun _ => ⟨hnext, hsize⟩
  have hsecond : (u64 src next).Gives fun _ last => last = next + 8 ∧ last ≤ src.bytes.size :=
    (word_gives 8 hsize).map
  refine hsecond.bind fun length last ⟨hlast, hend⟩ => ⟨?_, hend⟩
  change last = pos + 12
  omega

end Decode

/-- The version that stands in the line table at `offset`, after the length. -/
def LineTable.HasVersion (src : Source) (offset : ℕ) (version : UInt16) : Prop :=
  ∃ length format, (Decode.initialLength src offset).result = .ok (length, format) ∧
    (Decode.u16 src (offset + format.lengthSize)).result = .ok version

namespace LineHeader

/-- Where the directories start: after the fixed fields, of which version 4 has one more, and the
lengths of the opcodes. -/
def listsStart (h : LineHeader) : ℕ :=
  h.headerStart + (if 4 ≤ h.version then 6 else 5) + (h.opcodeBase.toNat - 1)

/-- The parts of a header stand one after another; the last is the zero byte at `terminator`. -/
structure Laid (src : Source) (h : LineHeader) (terminator : ℕ) : Prop where
  start : h.headerStart = h.offset + h.format.lengthSize + 2 + h.format.offsetSize
  headerLength :
    (Decode.offset h.format src (h.headerStart - h.format.offsetSize)).result = .ok h.headerLength
  lists : ∃ stop, LineTable.directory.Lists src h.listsStart h.directories stop ∧
    LineTable.file.Lists src (stop + 1) h.files terminator
  zero : src.Holds terminator [0]
  /-- The terminator is the last byte that is counted. -/
  consumed : h.headerStart + h.consumed = terminator + 1

end LineHeader

namespace LineTable

theorem directory_closes : directory.Closes src :=
  Decode.closes_of_follows fun _ => directory_follows

theorem file_closes : file.Closes src := Decode.closes_of_follows fun _ => file_follows

/-- Each part of a header starts where the one before it ends. -/
theorem header_laid {offset : ℕ} (format : Format) (length : UInt64) (version : UInt16)
    (hpos : pos ≤ src.bytes.size) (hstart : pos = offset + format.lengthSize + 2) :
    (header offset format length version src pos).Gives fun h _ =>
      h.offset = offset ∧ h.version = version ∧
        ∃ terminator, h.Laid src terminator ∧ terminator < src.bytes.size := by
  unfold header
  have hlength := (Decode.offset_meets format hpos).gives_self
  refine hlength.bind ?_
  rintro headerLength start ⟨⟨rfl, hsize⟩, hresult, -⟩
  rw [Decode.position_bind]
  refine (Decode.u8_gives hsize).bind fun minimum p₁ h₁ => ?_
  have hmaximum : ((if 4 ≤ version then Decode.u8 else pure 1 : Decode UInt8) src p₁).Gives
      fun _ next => next = p₁ + (if 4 ≤ version then 1 else 0) ∧ next ≤ src.bytes.size := by
    split
    · exact Decode.u8_gives h₁.2
    · exact ⟨rfl, h₁.2⟩
  refine .ite_bind hmaximum fun maximum p₂ h₂ => ?_
  refine (Decode.u8_gives h₂.2).bind fun default p₃ h₃ => ?_
  have hlineBase : (Decode.i8 src p₃).Gives fun _ next => next = p₃ + 1 ∧ next ≤ src.bytes.size :=
    (Decode.u8_gives h₃.2).map
  refine hlineBase.bind fun lineBase p₄ h₄ => ?_
  refine (Decode.u8_gives h₄.2).bind fun lineRange p₅ h₅ => ?_
  refine (Decode.u8_gives h₅.2).bind fun opcodeBase p₆ h₆ => ?_
  have hlengths := (Decode.take_meets (opcodeBase.toNat - 1) h₆.2).gives
  refine hlengths.bind fun opcodeLengths p₇ h₇ => ?_
  have hdirectories := Decode.collect_lists
    (directory_advances.mono (Nat.le_refl 1) fun _ _ => trivial) directory_closes h₇.2
  refine hdirectories.bind ?_
  rintro directories _ ⟨stop, hdirs, hle, hzero, rfl⟩
  have hfiles := Decode.collect_lists
    (file_advances.mono (Nat.le_refl 1) fun _ _ => trivial) file_closes hzero.le_size
  refine hfiles.bind ?_
  rintro files _ ⟨terminator, hlist, hle', hend, rfl⟩
  rw [Decode.position_bind]
  refine ⟨rfl, rfl, terminator, ⟨?_, ?_, ⟨stop, ?_, hlist⟩, hend, ?_⟩, hend.le_size⟩
  · change pos + format.offsetSize = offset + format.lengthSize + 2 + format.offsetSize
    rw [hstart]
  · change (Decode.offset format src (pos + format.offsetSize - format.offsetSize)).result = _
    rw [Nat.add_sub_cancel]
    exact hresult
  · have hlistsStart : p₇ = pos + format.offsetSize + (if 4 ≤ version then 6 else 5) +
        (opcodeBase.toNat - 1) := by
      by_cases hv : 4 ≤ version
      · rw [if_pos hv] at h₂ ⊢
        omega
      · rw [if_neg hv] at h₂ ⊢
        omega
    rw [hlistsStart] at hdirs
    exact hdirs
  · change pos + format.offsetSize + (terminator + 1 - (pos + format.offsetSize)) = terminator + 1
    omega

theorem decode_laid (hpos : pos ≤ src.bytes.size) :
    (decode src pos).Gives fun table _ =>
      pos < src.bytes.size ∧ HasVersion src pos table.version ∧ match table with
        | .supported h => h.offset = pos ∧ isSupported h.version ∧
            ∃ terminator, h.Laid src terminator ∧ terminator < src.bytes.size
        | .unsupported offset version => offset = pos ∧ ¬isSupported version := by
  unfold decode
  rw [Decode.position_bind]
  refine (Decode.initialLength_gives hpos).gives_self.bind ?_
  rintro ⟨length, format⟩ p₁ ⟨⟨rfl, hsize⟩, hlength, -⟩
  refine (Decode.u16_gives hsize).gives_self.bind ?_
  rintro version p₂ ⟨⟨rfl, hsize'⟩, hversion, -⟩
  have hinside : pos < src.bytes.size := by omega
  have hhas : HasVersion src pos version := ⟨length, format, hlength, hversion⟩
  refine .ite (fun hv => .map ?_) fun hv => ⟨hinside, hhas, rfl, hv⟩
  refine (header_laid format length version hsize' rfl).imp ?_
  rintro h next ⟨hoffset, rfl, hlaid⟩
  exact ⟨hinside, hhas, hoffset, hv, hlaid⟩

end LineTable
end DwarfUnits
