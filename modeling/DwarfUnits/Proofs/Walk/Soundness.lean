import DwarfUnits.Proofs.Unit.Layout
import DwarfUnits.Proofs.Unit.Root
import DwarfUnits.Proofs.Unit.Texts
import DwarfUnits.Proofs.Walk.Truth

/-! Reports: every record of one says what is so of the sections, line table status included. -/
namespace DwarfUnits

variable {s : Sections} {strictness : Strictness}

theorem LineTableStatus.isReliable_iff {status : LineTableStatus} :
    status.isReliable = true ↔ status = .decoded := by
  cases status <;> simp [isReliable]

namespace LineTableRecord

/-- The header that stands at the offset of a record, whose file list ends with a zero byte at
`terminator`, has the lists of the record. -/
structure Shows (s : Sections) (table : LineTableRecord) (header : LineHeader) (terminator : ℕ) :
    Prop where
  decode : (LineTable.decode ⟨.lines, s.order, s.lines⟩ table.offset).result =
    .ok (.supported header)
  laid : header.Laid ⟨.lines, s.order, s.lines⟩ terminator
  directories : table.directories = header.directories
  files : table.files = header.files

/-- A record of a line table says what stands in the section, and how far to trust it. -/
structure Sound (s : Sections) (strictness : Strictness) (table : LineTableRecord) : Prop where
  inside : table.offset < s.lines.size
  version : LineTable.HasVersion ⟨.lines, s.order, s.lines⟩ table.offset table.version
  unsupported : table.status = .unsupportedVersion ↔ ¬(2 ≤ table.version ∧ table.version ≤ 4)
  empty : table.status = .unsupportedVersion → table.directories = [] ∧ table.files = []
  decoded : table.status = .decoded ↔ (2 ≤ table.version ∧ table.version ≤ 4) ∧
    ∃ header terminator, table.Shows s header terminator ∧
      terminator + 1 = header.headerStart + header.headerLength.toNat
  reliable : table.status.isReliable = true ↔ table.status = .decoded
  mismatch : table.status ≠ .unsupportedVersion → table.status ≠ .decoded →
    strictness = .lenient ∧ ∃ header terminator, table.Shows s header terminator ∧
      table.status = .headerLengthMismatch header.headerLength header.consumed ∧
      header.consumed ≤ s.lines.size ∧ header.headerLength.toNat ≠ header.consumed

variable {table : LineTableRecord} {header : LineHeader} {terminator : ℕ}

/-- The terminator is in its place where as much was taken as was declared. -/
theorem Shows.ends_iff (h : table.Shows s header terminator) :
    terminator + 1 = header.headerStart + header.headerLength.toNat ↔
      header.consumed = header.headerLength.toNat := by
  have hconsumed := h.laid.consumed
  constructor <;> intro hend <;> omega

theorem Shows.header_eq {header' : LineHeader} {terminator' : ℕ}
    (h : table.Shows s header terminator) (h' : table.Shows s header' terminator') :
    header = header' := by
  have hboth := h.decode.symm.trans h'.decode
  exact LineTable.supported.inj (Except.ok.inj hboth)

theorem sound_of_unsupported (hinside : table.offset < s.lines.size)
    (hversion : LineTable.HasVersion ⟨.lines, s.order, s.lines⟩ table.offset table.version)
    (hstatus : table.status = .unsupportedVersion)
    (hrange : ¬(2 ≤ table.version ∧ table.version ≤ 4))
    (hempty : table.directories = [] ∧ table.files = []) : table.Sound s strictness where
  inside := hinside
  version := hversion
  unsupported := ⟨fun _ => hrange, fun _ => hstatus⟩
  empty _ := hempty
  decoded := by
    rw [hstatus]
    exact ⟨nofun, fun h => absurd h.1 hrange⟩
  reliable := LineTableStatus.isReliable_iff
  mismatch h := absurd hstatus h

theorem sound_of_supported (hshows : table.Shows s header terminator)
    (hterminator : terminator < s.lines.size) (hinside : table.offset < s.lines.size)
    (hversion : LineTable.HasVersion ⟨.lines, s.order, s.lines⟩ table.offset table.version)
    (hrange : 2 ≤ table.version ∧ table.version ≤ 4)
    (hstatus : table.status ≠ .unsupportedVersion)
    (hdecoded : table.status = .decoded ↔ header.consumed = header.headerLength.toNat)
    (hmismatch : table.status ≠ .decoded → strictness = .lenient ∧
      table.status = .headerLengthMismatch header.headerLength header.consumed) :
    table.Sound s strictness where
  inside := hinside
  version := hversion
  unsupported := ⟨fun h => absurd h hstatus, fun h => absurd hrange h⟩
  empty h := absurd h hstatus
  decoded := by
    constructor
    · intro h
      exact ⟨hrange, header, terminator, hshows, hshows.ends_iff.mpr (hdecoded.mp h)⟩
    · rintro ⟨-, header', terminator', hshows', hend⟩
      obtain rfl := hshows.header_eq hshows'
      exact hdecoded.mpr (hshows'.ends_iff.mp hend)
  reliable := LineTableStatus.isReliable_iff
  mismatch _ h := by
    obtain ⟨hlenient, htold⟩ := hmismatch h
    have hconsumed := hshows.laid.consumed
    have hdiffers : header.headerLength.toNat ≠ header.consumed := fun hend =>
      h (hdecoded.mpr hend.symm)
    exact ⟨hlenient, header, terminator, hshows, htold, by omega, hdiffers⟩

end LineTableRecord

namespace UnitRecord

theorem decodeTable_sound {offset : ℕ} (hle : offset ≤ s.lines.size) :
    (decodeTable strictness ⟨.lines, s.order, s.lines⟩ offset).Gives fun table _ =>
      table.offset = offset ∧ table.Sound s strictness := by
  unfold decodeTable
  refine (LineTable.decode_laid hle).gives_self.bind ?_
  rintro (header | ⟨start, version⟩) next ⟨⟨hinside, hversion, htable⟩, hresult, -⟩
  · obtain ⟨rfl, hsupported, terminator, hlaid, hterminator⟩ := htable
    have hrange : 2 ≤ header.version ∧ header.version ≤ 4 := by
      simpa [LineTable.isSupported] using hsupported
    by_cases hend : header.consumed = header.headerLength.toNat
    · simp only [tableStatus_of_eq hend]
      refine ⟨rfl, ?_⟩
      exact LineTableRecord.sound_of_supported ⟨hresult, hlaid, rfl, rfl⟩ hterminator hinside
        hversion hrange (by simp) (by simp [hend]) (absurd rfl)
    · cases strictness with
      | strict =>
        simp only [tableStatus_strict hend]
        trivial
      | lenient =>
        simp only [tableStatus_lenient hend]
        refine ⟨rfl, ?_⟩
        exact LineTableRecord.sound_of_supported ⟨hresult, hlaid, rfl, rfl⟩ hterminator hinside
          hversion hrange (by simp) (by simp [hend]) fun _ => ⟨rfl, rfl⟩
  · obtain ⟨rfl, hsupported⟩ := htable
    have hrange : ¬(2 ≤ version ∧ version ≤ 4) := by
      simpa [LineTable.isSupported] using hsupported
    exact ⟨rfl, LineTableRecord.sound_of_unsupported hinside hversion rfl hrange ⟨rfl, rfl⟩⟩

theorem decodeLines_sound {src : Source} {pos : ℕ} (lineOffset : Option UInt64) :
    ((lineOffset.mapM fun offset =>
      s.decodeAt .lines offset.toNat (decodeTable strictness) : Decode _) src pos).Gives
      fun lineTable _ => lineTable.map LineTableRecord.offset = lineOffset.map UInt64.toNat ∧
        ∀ table ∈ lineTable, table.Sound s strictness := by
  cases lineOffset with
  | none => exact ⟨rfl, by simp⟩
  | some offset =>
    refine .map (Decode.decodeAt_meets rfl (fun _ => trivial) fun hle => ?_)
    refine (decodeTable_sound hle).imp fun table _ ⟨hoffset, hsound⟩ => ?_
    exact ⟨congrArg some hoffset, by simpa using hsound⟩

/-- A record says what stands in the unit at its offset, whose header is `header`. -/
structure Sound (s : Sections) (strictness : Strictness) (header : UnitHeader)
    (record : UnitRecord) : Prop where
  decode : (UnitHeader.decode ⟨.info, s.order, s.info⟩ record.offset).result = .ok header
  bare : header.rootCode = 0 →
    record.name = none ∧ record.compDir = none ∧ record.lineTable = none
  entry : header.rootCode ≠ 0 → ∃ declaration values,
    header.HasRoot s ⟨.info, s.order, s.info⟩
      (UnitHeader.decode ⟨.info, s.order, s.info⟩ record.offset).position declaration values ∧
    (record.lineTable.isSome ↔
      ∃ spec ∈ declaration.specs, spec.attr = RootAttributes.lineOffsetCode) ∧
    ∀ table ∈ record.lineTable, ∃ n, table.offset = n.toNat ∧
      (RootAttributes.valuesOf RootAttributes.lineOffsetCode declaration.specs
        values).getLast? = some (.offset n)
  tables : ∀ table ∈ record.lineTable, table.Sound s strictness
  texts : record.ZeroFree

theorem decode_sound {pos : ℕ} (hle : pos ≤ s.info.size) :
    (decode s strictness ⟨.info, s.order, s.info⟩ pos).Gives fun (header, record) _ =>
      record.Sound s strictness header := by
  have htexts : (decode s strictness ⟨.info, s.order, s.info⟩ pos).Gives
      fun (_, record) _ => record.ZeroFree := decode_zeroFree strictness hle
  suffices h : (decode s strictness ⟨.info, s.order, s.info⟩ pos).Gives
      fun (header, record) _ => record.ZeroFree → record.Sound s strictness header from
    (h.and htexts).gives.imp fun _ _ ⟨hsound, hzero⟩ => hsound hzero
  unfold decode
  refine (UnitHeader.decode_meets hle).gives_self.bind ?_
  rintro header _ ⟨⟨rfl, -, -, hsize⟩, hheader, rfl⟩
  refine .emit_bind ((decodeRoot_gives header hsize).bind fun root p ⟨hbare, hentry⟩ => ?_)
  refine (decodeLines_sound root.lineOffset).bind
    fun lineTable _ ⟨hoffsets, htables⟩ htext => ?_
  refine ⟨hheader, fun hcode => ?_, fun hcode => ?_, htables, htext⟩
  · obtain rfl := hbare hcode
    have hnone : lineTable = none := by simpa [RootAttributes.empty] using hoffsets
    exact ⟨rfl, rfl, hnone⟩
  · obtain ⟨declaration, values, hroot, hlast⟩ := hentry hcode
    have hpresent : lineTable.isSome = root.lineOffset.isSome := by
      rw [← Option.isSome_map (f := LineTableRecord.offset), hoffsets, Option.isSome_map]
    refine ⟨declaration, values, hroot, ?_, fun table htable => ?_⟩
    · rw [← RootAttributes.valuesOf_ne_nil_iff hroot.follow, ← List.getLast?_isSome, ← hlast,
        Option.isSome_map, ← hpresent]
    · obtain rfl := Option.mem_def.mp htable
      cases hline : root.lineOffset with
      | none => simp [hline] at hoffsets
      | some n =>
        rw [hline] at hoffsets hlast
        exact ⟨n, Option.some.inj hoffsets, hlast.symm⟩

end UnitRecord

namespace Walker

theorem steps_sound (s : Sections) (strictness : Strictness) :
    ∀ t ∈ (start s strictness).steps, ∀ record, t.item = .ok record →
      ∃ header, record.Sound s strictness header := by
  refine forall_start_steps _ ?_
  rintro w t rfl rfl hnext record' hrecord
  obtain ⟨-, hlt, ⟨header, record, hunit, hitem, -⟩ | ⟨e, -, hitem, -⟩⟩ := next_cases hnext
  · obtain rfl : record = record' := by simpa [hitem] using hrecord
    exact ⟨header, (UnitRecord.decode_sound (Nat.le_of_lt hlt)).of_ok hunit⟩
  · rw [hitem] at hrecord
    cases hrecord

end Walker

/-- What a walk reports is so, of every unit and of every line table. -/
theorem walk_report_sound {report : Report} (h : (walk s strictness).1 = .ok report) :
    ∀ record ∈ report.units, ∃ header, record.Sound s strictness header := by
  intro record hrecord
  have hitem : Except.ok record ∈ (Walker.start s strictness).steps.map WalkStep.item := by
    rw [walk_ok_iff.mp h]
    exact List.mem_map_of_mem hrecord
  obtain ⟨t, ht, hok⟩ := List.mem_map.mp hitem
  exact Walker.steps_sound s strictness t ht record hok

theorem walk_report_sound_misdeclared :
    ∃ (record : UnitRecord) (header : UnitHeader), record.offset = 0 ∧
      record.Sound .misdeclared .lenient header ∧ record.lineTable.map LineTableRecord.status =
        some (.headerLengthMismatch 9 7) := by
  have hwalk : (walk .misdeclared .lenient).1 = .ok { units := [
      { offset := 0, version := 4, abbrevOffset := 0, addressSize := 8, name := none, compDir := none
        lineTable := some { offset := 0, version := 2, status := .headerLengthMismatch 9 7
                            directories := [], files := [] } }] } := by
    decide +kernel
  obtain ⟨header, hsound⟩ := walk_report_sound hwalk _ (List.mem_singleton_self _)
  exact ⟨_, header, rfl, hsound, rfl⟩

end DwarfUnits
