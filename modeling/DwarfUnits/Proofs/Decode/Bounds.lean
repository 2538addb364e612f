import DwarfUnits.Entry.Attributes
import DwarfUnits.LineTable
import DwarfUnits.Proofs.Decode.Laws

/-! Decoders stay inside their section: how far each moves at least, and how each fails. -/
namespace DwarfUnits

variable {α β : Type}

/-- An error of a read that starts inside `src` and would end outside. -/
def Source.Overrun (src : Source) (e : Error) : Prop :=
  ∃ offset needed, e = .outOfBounds src.id offset needed ∧ 0 < needed ∧
    offset ≤ src.bytes.size ∧ src.bytes.size < offset + needed

theorem Source.le_indexFrom {src : Source} {p : UInt8 → Bool} {pos i : Nat}
    (h : src.indexFrom p pos = some i) : pos ≤ i ∧ i < src.bytes.size := by
  fun_induction Source.indexFrom src p pos with
  | case1 pos hpos hp =>
    obtain rfl := Option.some.inj h
    exact ⟨Nat.le_refl _, hpos⟩
  | case2 pos hpos hp ih =>
    have := ih h
    omega
  | case3 pos hpos => cases h

/-- From every position in `src`, `d` moves on by `least` bytes or more and stays inside, or it
fails with an error in `bad`. -/
def Decode.Advances (d : Decode α) (src : Source) (least : Nat) (bad : Error → Prop) : Prop :=
  ∀ pos ≤ src.bytes.size,
    (d src pos).Meets (fun _ next => pos + least ≤ next ∧ next ≤ src.bytes.size) (fun e _ => bad e)

namespace Decode.Advances

variable {d : Decode α} {f : α → Decode β} {src : Source} {least more : Nat} {bad : Error → Prop}

theorem mono (h : d.Advances src least bad) {fewer : Nat} {worse : Error → Prop}
    (hn : fewer ≤ least) (hb : ∀ e, bad e → worse e) : d.Advances src fewer worse := by
  intro pos hpos
  refine (h pos hpos).mono (fun _ next hnext => ?_) (fun e _ he => hb e he)
  omega

/-- Only that `d` does not move back. -/
theorem weaken (h : d.Advances src least bad) {worse : Error → Prop} (hb : ∀ e, bad e → worse e) :
    d.Advances src 0 worse :=
  h.mono (Nat.zero_le _) hb

theorem pure (a : α) : (Pure.pure a : Decode α).Advances src 0 bad :=
  fun _ hpos => ⟨Nat.le_refl _, hpos⟩

theorem fail {e : Error} (he : bad e) : (Decode.fail e : Decode α).Advances src least bad :=
  fun _ _ => he

theorem emit (event : Event) : (Decode.emit event).Advances src 0 bad :=
  fun _ hpos => ⟨Nat.le_refl _, hpos⟩

theorem position : Decode.position.Advances src 0 bad :=
  fun _ hpos => ⟨Nat.le_refl _, hpos⟩

theorem bind_of {good : α → Prop} (h : d.Advances src least bad) (hg : d.Yields good)
    (hf : ∀ a, good a → (f a).Advances src more bad) : (d >>= f).Advances src (least + more) bad := by
  intro pos hpos
  have hmeets : (d src pos).Meets (fun a next => good a ∧ pos + least ≤ next ∧
      next ≤ src.bytes.size) (fun e _ => bad e) := by
    have hstep := h pos hpos
    unfold Outcome.Meets at *
    split at hstep
    · exact ⟨hg src pos _ ‹_›, hstep⟩
    · exact hstep
  refine hmeets.bind fun a mid hmid => ?_
  refine (hf a hmid.1 mid hmid.2.2).mono (fun _ next hnext => ?_) fun _ _ => id
  omega

theorem bind (h : d.Advances src least bad) (hf : ∀ a, (f a).Advances src more bad) :
    (d >>= f).Advances src (least + more) bad :=
  h.bind_of (fun _ _ _ _ => trivial) fun a _ => hf a

theorem seq (h : d.Advances src 0 bad) (hf : ∀ a, (f a).Advances src 0 bad) :
    (d >>= f).Advances src 0 bad :=
  h.bind hf

theorem map {f : α → β} (h : d.Advances src least bad) : (f <$> d).Advances src least bad :=
  fun pos hpos => (h pos hpos).map

theorem discard (h : d.Advances src least bad) :
    (Functor.discard d).Advances src least bad := h.map

theorem ite {c : Prop} [Decidable c] {d d' : Decode α} (h : c → d.Advances src least bad)
    (h' : ¬c → d'.Advances src least bad) : (if c then d else d').Advances src least bad :=
  fun pos hpos => .ite (fun hc => h hc pos hpos) (fun hc => h' hc pos hpos)

end Decode.Advances

namespace Decode

variable {src : Source}

/-- A run of fixed length ends exactly where it should. -/
theorem take_meets (n : Nat) {pos : Nat} (hpos : pos ≤ src.bytes.size) :
    (take n src pos).Meets (fun _ next => next = pos + n ∧ next ≤ src.bytes.size)
      (fun e _ => src.Overrun e) := by
  unfold take
  split
  · exact ⟨rfl, ‹_›⟩
  · exact ⟨pos, n, rfl, by omega, hpos, by omega⟩

theorem take_advances (n : Nat) : (take n).Advances src n src.Overrun :=
  fun _ hpos => (take_meets n hpos).mono (fun _ _ h => ⟨Nat.le_of_eq h.1.symm, h.2⟩) fun _ _ => id

theorem skip_advances (n : Nat) : (skip n).Advances src n src.Overrun := by
  rw [skip_eq_map]
  exact (take_advances n).map

theorem takeThrough_advances (p : UInt8 → Bool) :
    (takeThrough p).Advances src 1 src.Overrun := by
  intro pos hpos
  unfold takeThrough
  split
  · rename_i i hi
    have := Source.le_indexFrom hi
    change pos + 1 ≤ i + 1 ∧ i + 1 ≤ src.bytes.size
    omega
  · exact ⟨pos, src.bytes.size - pos + 1, rfl, by omega, hpos, by omega⟩

theorem word_advances (n : Nat) : (word n).Advances src n src.Overrun :=
  (take_advances n).map

theorem u8_advances : u8.Advances src 1 src.Overrun := (word_advances 1).map

theorem i8_advances : i8.Advances src 1 src.Overrun := u8_advances.map

theorem u16_advances : u16.Advances src 2 src.Overrun := (word_advances 2).map

theorem u32_advances : u32.Advances src 4 src.Overrun := (word_advances 4).map

theorem u64_advances : u64.Advances src 8 src.Overrun := (word_advances 8).map

theorem uleb128_advances : uleb128.Advances src 1 src.Overrun := (takeThrough_advances _).map

theorem sleb128_advances : sleb128.Advances src 1 src.Overrun := (takeThrough_advances _).map

theorem cstring_advances : cstring.Advances src 1 src.Overrun := (takeThrough_advances _).map

theorem offset_meets (format : Format) {pos : Nat} (hpos : pos ≤ src.bytes.size) :
    (offset format src pos).Meets
      (fun _ next => next = pos + format.offsetSize ∧ next ≤ src.bytes.size)
      (fun e _ => src.Overrun e) :=
  Outcome.Meets.map (Outcome.Meets.map (take_meets _ hpos))

theorem offset_advances (format : Format) :
    (offset format).Advances src format.offsetSize src.Overrun := (word_advances _).map

theorem initialLength_advances : initialLength.Advances src 4 src.Overrun := by
  have hrest : ∀ first : UInt32, (do
      if first = Format.escape then
        let length ← u64
        return (length, Format.dwarf64)
      else return (first.toUInt64, .dwarf32) : Decode _).Advances src 0 src.Overrun := by
    intro first
    split
    · exact (u64_advances.bind fun _ => .pure _).weaken fun _ => id
    · exact .pure _
  exact u32_advances.bind hrest

theorem collect_advances {step : Decode (Option α)} {least : Nat} {bad : Error → Prop}
    (h : step.Advances src least bad) (hl : 0 < least) : (collect step).Advances src least bad := by
  intro pos hpos
  -- Every item leaves less of the section for the rest.
  induction hn : src.bytes.size - pos using Nat.strongRecOn generalizing pos with
  | ind n ih =>
    have hstep := h pos hpos
    rw [collect_apply (hstep.mono (fun _ _ _ => by omega) (fun _ _ _ => trivial))]
    refine hstep.bind fun item mid hmid => ?_
    cases item with
    | none => exact hmid
    | some a =>
      refine ((ih (src.bytes.size - mid) (by omega) mid hmid.2 rfl).mono
        (fun _ next hnext => ?_) (fun _ _ he => he)).map
      omega

/-- Decoding at an offset of a section that is there. -/
theorem decodeAt_meets {s : Sections} {id : SectionId} {bytes : ByteArray} {offset : Nat}
    {d : Decode α} {pos : Nat} {ok : α → Nat → Prop} {err : Error → Nat → Prop}
    (hs : s.get? id = some bytes)
    (hpast : bytes.size < offset → err (.outOfBounds id offset 0) pos)
    (hd : offset ≤ bytes.size →
      (d ⟨id, s.order, bytes⟩ offset).Meets (fun a _ => ok a pos) (fun e _ => err e pos)) :
    (s.decodeAt id offset d src pos).Meets ok err := by
  unfold Sections.decodeAt Decode.elsewhere Sections.source Source.start
  simp only [hs]
  by_cases h : offset ≤ bytes.size
  · rw [if_pos h]
    exact hd h
  · rw [if_neg h]
    exact hpast (by omega)

end Decode
end DwarfUnits
