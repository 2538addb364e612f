import DwarfUnits.Proofs.Unit.Locality
import DwarfUnits.Proofs.Walk.Truth

/-! A walk that succeeds goes the same way in sections that have grown, and where its units stand
further on. -/
namespace DwarfUnits

variable {s s' : Sections} {strictness : Strictness} {k : ℕ}

namespace UnitRecord

/-- The record of the same unit, written `n` bytes further on. -/
def moved (record : UnitRecord) (n : ℕ) : UnitRecord := { record with offset := record.offset + n }

theorem moved_zero (record : UnitRecord) : record.moved 0 = record := rfl

theorem tableStatus_carries (strictness : Strictness) (header : LineHeader) :
    (tableStatus strictness header).Carries k (tableStatus strictness header) := by
  unfold tableStatus
  split
  · exact .pure _
  · exact .ite (fun _ => .bind (.emit _ _) fun _ => .pure _) fun _ => .fail

theorem decodeTable_carries (strictness : Strictness) :
    (decodeTable strictness).Carries 0 (decodeTable strictness) := by
  unfold decodeTable
  refine LineTable.decode_carries.bind ?_
  rintro (header | ⟨offset, version⟩)
  · exact (tableStatus_carries strictness header).bind fun _ => .pure _
  · exact .pure _

theorem decodeRoot_carries (hs : s.Grows s') (header : UnitHeader) (n : ℕ) :
    (decodeRoot s header).Carries k (decodeRoot s' (header.moved n)) := by
  have habbrevs : SectionId.abbrevs ≠ .info := by decide
  unfold decodeRoot
  refine .ite (fun _ => .bind (.emit _ _) fun _ => .pure _) fun _ => ?_
  refine (Decode.decodeAt_carries hs habbrevs _ (Declaration.decodeRoot_carries header n)).bind ?_
  exact fun declaration => RootAttributes.decode_carries hs header n declaration.specs

theorem decodeLines_carries (hs : s.Grows s') (strictness : Strictness)
    (lineOffset : Option UInt64) :
    (lineOffset.mapM fun offset =>
      s.decodeAt .lines offset.toNat (decodeTable strictness) : Decode _).Carries k
    (lineOffset.mapM fun offset => s'.decodeAt .lines offset.toNat (decodeTable strictness)) := by
  have hlines : SectionId.lines ≠ .info := by decide
  cases lineOffset with
  | none => exact .pure none
  | some offset => exact (Decode.decodeAt_carries hs hlines _ (decodeTable_carries strictness)).map

/-- Elsewhere, and in sections that have grown, a unit is the same but for its offset. -/
theorem decode_repeats (hs : s.Grows s') (strictness : Strictness) {src : Source} {pos : ℕ}
    (hpos : pos ≤ src.bytes.size) :
    (decode s strictness src pos).Gives fun (header, record) next =>
      header.next + k < UnitHeader.offsetLimit →
        (decode s' strictness).Repeats src pos k next (header.moved k, record.moved k) := by
  have hheader := (UnitHeader.decode_meets hpos).and (UnitHeader.decode_repeats (k := k) hpos)
  unfold decode
  refine hheader.gives.bind ?_
  rintro header p₁ ⟨⟨-, -, -, hsize⟩, h₁⟩
  have hemit := Decode.Carries.emit (k := k)
    (.unitHeader header.version header.abbrevOffset header.addressSize header.next)
    (.unitHeader header.version header.abbrevOffset header.addressSize (header.moved k).next)
  refine (hemit src p₁ hsize).bind fun _ p₂ h₂ => ?_
  have hroot := decodeRoot_carries (k := k) hs header k
  refine (hroot src p₂ h₂.bounds.2).bind fun root p₃ h₃ => ?_
  have hlines := decodeLines_carries (k := k) hs strictness root.lineOffset
  refine (hlines src p₃ h₃.bounds.2).bind fun lineTable p₄ h₄ => ?_
  intro hlimit
  exact (h₁ hlimit).bind (h₂.bind (h₃.bind (h₄.bind (.pure h₄.bounds.2 _))))

end UnitRecord

namespace Walker

variable {w w' : Walker} {t : WalkStep}

/-- The same walker before the unit at `offset`. -/
def seek (w : Walker) (offset : ℕ) : Walker := { w with offset }

/-- The walker after the last step of a walk. -/
def last (w : Walker) : Walker := (w.steps.getLast?.map WalkStep.walker).getD w

theorem last_of_next_eq_none (h : w.next = none) : w.last = w := by
  rw [last, steps_of_next_eq_none h]
  rfl

theorem last_of_next_eq_some (h : w.next = some t) : w.last = t.walker.last := by
  rw [last, steps_of_next_eq_some h, List.getLast?_cons, last]
  cases t.walker.steps.getLast? <;> rfl

theorem offset_le_last (w : Walker) : w.offset ≤ w.last.offset := by
  fun_induction steps w with
  | case1 w h => rw [last_of_next_eq_none h]
  | case2 w t h ih =>
    rw [last_of_next_eq_some h]
    obtain ⟨-, -, ⟨header, record, -, -, ht⟩ | ⟨e, -, -, ht⟩⟩ := next_cases h
    · have hle : w.offset ≤ t.walker.offset := by
        rw [ht]
        exact Nat.le_add_right _ _
      exact Nat.le_trans hle ih
    · have hsame : t.walker.offset = w.offset := by rw [ht]
      rwa [hsame] at ih

/-- A walker stands within 64 bits from the first unit to the end. -/
theorem last_offset_lt (hw : w.offset < UnitHeader.offsetLimit) :
    w.last.offset < UnitHeader.offsetLimit := by
  fun_induction steps w with
  | case1 w h => rwa [last_of_next_eq_none h]
  | case2 w t h ih =>
    rw [last_of_next_eq_some h]
    apply ih
    obtain ⟨-, hlt, ⟨header, record, hunit, -, ht⟩ | ⟨e, -, -, ht⟩⟩ := next_cases h
    · obtain ⟨-, hoffset, hnext, -, -⟩ := unit_of_ok hunit (Nat.le_of_lt hlt)
      rw [ht]
      rwa [UnitHeader.next, hoffset] at hnext
    · rwa [ht]

/-- A walk without an error leaves the walker open, past the end of its section. -/
theorem last_of_ok {units : List UnitRecord} (hopen : w.finished = false)
    (hok : w.steps.map WalkStep.item = units.map .ok) :
    w.last = w.seek w.last.offset ∧ w.sections.info.size ≤ w.last.offset := by
  fun_induction steps w generalizing units with
  | case1 w h =>
    rw [last_of_next_eq_none h]
    refine ⟨rfl, (next_eq_none_iff.mp h).resolve_left ?_⟩
    simp [hopen]
  | case2 w t h ih =>
    rw [last_of_next_eq_some h]
    cases units with
    | nil => simp at hok
    | cons unit units =>
      rw [List.map_cons, List.map_cons, List.cons.injEq] at hok
      obtain ⟨hitem, hrest⟩ := hok
      obtain ⟨-, -, ⟨header, record, -, -, ht⟩ | ⟨e, -, herror, -⟩⟩ := next_cases h
      · obtain ⟨hlast, hsize⟩ := ih (by rw [ht]; exact hopen) hrest
        rw [ht] at hlast hsize ⊢
        exact ⟨hlast, hsize⟩
      · rw [hitem] at herror
        cases herror

/-- Two walkers before the same unit, the second in sections that have grown, where the unit stands
`k` further on. -/
structure Shifted (w : Walker) (k : ℕ) (w' : Walker) : Prop where
  grows : w.sections.Grows w'.sections
  within : w.source.Within k w'.source
  strictness : w'.strictness = w.strictness
  offset : w'.offset = w.offset + k
  unfinished : w'.finished = false

theorem Shifted.unit_of_ok {header : UnitHeader} {record : UnitRecord} (h : w.Shifted k w')
    (hle : w.offset ≤ w.sections.info.size) (hunit : w.unit = .ok (header, record))
    (hlimit : header.next + k < UnitHeader.offsetLimit) :
    w'.unit = .ok (header.moved k, record.moved k) := by
  have hle' : w.offset ≤ w.source.bytes.size := hle
  have hmeets := UnitRecord.decode_repeats (k := k) h.grows w.strictness hle'
  have hrepeats := hmeets.of_ok hunit hlimit
  rw [unit, h.strictness, h.offset]
  exact (hrepeats.within h.within).1

theorem Shifted.next_of_ok (h : w.Shifted k w') (hnext : w.next = some t) {record : UnitRecord}
    (hitem : t.item = .ok record) (hlimit : t.walker.offset + k < UnitHeader.offsetLimit) :
    ∃ t', w'.next = some t' ∧ t'.item = .ok (record.moved k) ∧
      t'.walker = w'.seek (t.walker.offset + k) ∧ t.walker.Shifted k t'.walker := by
  obtain ⟨-, hlt, ⟨header, record', hunit, hok, ht⟩ | ⟨e, -, herror, -⟩⟩ := next_cases hnext
  · obtain rfl : record' = record := by simpa [hitem] using hok.symm
    obtain ⟨-, hoffset, -⟩ := Walker.unit_of_ok hunit (Nat.le_of_lt hlt)
    have hend : header.next = t.walker.offset := by rw [ht, UnitHeader.next, hoffset]
    have hunit' := h.unit_of_ok (Nat.le_of_lt hlt) hunit (by rwa [hend])
    have hlt' : w'.offset < w'.sections.info.size := by
      have hsize := h.within.le_size
      have hoffset' := h.offset
      change k + w.sections.info.size ≤ w'.sections.info.size at hsize
      omega
    obtain ⟨t', ht', hitem', hw'⟩ := Walker.next_of_ok h.unfinished hlt' hunit'
    have hwalker : t'.walker = w'.seek (t.walker.offset + k) := by
      rw [hw', ht, h.offset]
      exact congrArg w'.seek (Nat.add_right_comm _ _ _)
    refine ⟨t', ht', hitem', hwalker, ?_⟩
    rw [hwalker, ht]
    exact ⟨h.grows, h.within, h.strictness, rfl, h.unfinished⟩
  · rw [hitem] at herror
    cases herror

/-- The shifted walk tells of the same units, and goes on from where the first walk ends. -/
theorem Shifted.steps (h : w.Shifted k w') {units : List UnitRecord}
    (hok : w.steps.map WalkStep.item = units.map .ok)
    (hlimit : w.last.offset + k < UnitHeader.offsetLimit) :
    w'.steps.map WalkStep.item = (units.map (·.moved k)).map .ok ++
        (w'.seek (w.last.offset + k)).steps.map WalkStep.item ∧
      w'.last = (w'.seek (w.last.offset + k)).last := by
  -- On the steps of the first walk: each has its like in the second.
  fun_induction Walker.steps w generalizing w' units with
  | case1 w hnext =>
    obtain rfl : units = [] := by simpa using hok
    rw [last_of_next_eq_none hnext, ← h.offset]
    exact ⟨rfl, rfl⟩
  | case2 w t hnext ih =>
    cases units with
    | nil => simp at hok
    | cons unit units =>
      rw [List.map_cons, List.map_cons, List.cons.injEq] at hok
      obtain ⟨hitem, hrest⟩ := hok
      rw [last_of_next_eq_some hnext] at hlimit ⊢
      have hle := offset_le_last t.walker
      obtain ⟨t', hnext', hitem', hwalker, hshifted⟩ := h.next_of_ok hnext hitem (by omega)
      obtain ⟨hsteps, hlast⟩ := ih hshifted hrest hlimit
      rw [steps_of_next_eq_some hnext', last_of_next_eq_some hnext', List.map_cons, hitem']
      rw [hwalker] at hsteps hlast ⊢
      exact ⟨congrArg _ hsteps, hlast⟩

end Walker

/-- A report stays as it is when the sections that its units refer to grow, and when a string table
that was absent is supplied. -/
theorem walk_grows (h : s.Grows s') (hinfo : s'.info = s.info) {report : Report}
    (hok : (walk s strictness).1 = .ok report) : (walk s' strictness).1 = .ok report := by
  have hsteps := walk_ok_iff.mp hok
  have hbytes : s'.info = ByteArray.empty ++ s.info ++ ByteArray.empty := by
    rw [ByteArray.empty_append, ByteArray.append_empty, hinfo]
  have hshifted : (Walker.start s strictness).Shifted 0 (Walker.start s' strictness) :=
    ⟨h, Source.within_append .empty .empty h.order hbytes, rfl, rfl, rfl⟩
  have hlimit : (Walker.start s strictness).last.offset < UnitHeader.offsetLimit :=
    Walker.last_offset_lt (Nat.two_pow_pos 64)
  have hend : s'.info.size ≤ (Walker.start s strictness).last.offset := by
    rw [hinfo]
    exact (Walker.last_of_ok rfl hsteps).2
  have hrest : ((Walker.start s' strictness).seek
      ((Walker.start s strictness).last.offset + 0)).next = none :=
    Walker.next_eq_none_iff.mpr (Or.inr hend)
  rw [walk_ok_iff, (hshifted.steps hsteps hlimit).1, Walker.steps_of_next_eq_none hrest]
  simp [UnitRecord.moved_zero]

/-- The unit with a wrong line table in an image that has grown, with a string table it lacked. -/
def Sections.misdeclaredGrown : Sections :=
  { Sections.misdeclared with
    abbrevs := Sections.misdeclared.abbrevs ++ ⟨#[1, 0, 0]⟩
    lines := Sections.misdeclared.lines ++ ⟨#[0, 1]⟩
    strings := some ⟨#[97]⟩ }

theorem walk_grows_misdeclared :
    (walk .misdeclaredGrown .lenient).1 = .ok { units := [
      { offset := 0, version := 4, abbrevOffset := 0, addressSize := 8, name := none, compDir := none
        lineTable := some { offset := 0, version := 2, status := .headerLengthMismatch 9 7
                            directories := [], files := [] } }] } := by
  have hgrows : Sections.misdeclared.Grows .misdeclaredGrown :=
    { order := rfl
      abbrevs := ⟨_, rfl⟩
      lines := ⟨_, rfl⟩
      strings := fun _ h => by cases h
      lineStrings := fun _ h => by cases h }
  exact walk_grows hgrows rfl (by decide +kernel)

end DwarfUnits
