import DwarfUnits.Proofs.Walk.RoundTrip
import DwarfUnits.Proofs.Walk.Soundness
import DwarfUnits.Proofs.Walk.Strictness

/-! The checked reader of line tables and the walk: of every table that a walk comes to, both say
the same, whether they take it or refuse it. -/
namespace DwarfUnits

/-- What a report keeps of a table that a checked reading gives. -/
def LineTable.record : LineTable → LineTableRecord
  | .supported header =>
    { offset := header.offset, version := header.version, status := .decoded
      directories := header.directories, files := header.files }
  | .unsupported offset version =>
    { offset, version, status := .unsupportedVersion, directories := [], files := [] }

variable {s : Sections} {strictness : Strictness} {table : LineTableRecord}

namespace UnitRecord

/-- Where the root entry of the unit at the position reached places its line table, if it does. -/
def decodePlace (s : Sections) : Decode (Option UInt64) := do
  let header ← UnitHeader.decode
  let root ← decodeRoot s header
  return root.lineOffset

/-- A strict walk takes a table exactly as the checked reader does. -/
theorem decodeTable_checked (src : Source) (pos : Nat) :
    (decodeTable .strict src pos).result =
      (LineTable.decodeChecked src pos).result >>= fun line => .ok line.record := by
  unfold decodeTable LineTable.decodeChecked
  rw [Decode.bind_result, Decode.bind_result, bind_assoc]
  cases (LineTable.decode src pos).result with
  | error e => rfl
  | ok line =>
    cases line with
    | unsupported offset version => rfl
    | supported header =>
      dsimp only [Bind.bind, Except.bind]
      by_cases hlength : header.consumed = header.headerLength.toNat
      · have hvalid : header.validate = .ok () := by simp [LineHeader.validate, hlength]
        simp only [tableStatus_of_eq hlength, hvalid]
        rfl
      · have hinvalid : header.validate = .error header.mismatch := by
          simp [LineHeader.validate, hlength]
        simp only [tableStatus_strict hlength, hinvalid]
        rfl

theorem run_decodeTable_strict (s : Sections) (offset : Nat) :
    s.run .lines offset (decodeTable .strict) =
      LineTable.read s offset >>= fun line => .ok line.record :=
  Decode.run_check decodeTable_checked

/-- What a lenient walk lets pass with a wrong length, the checked reader refuses. -/
theorem run_decodeTable_lenient (s : Sections) (offset : Nat) :
    s.run .lines offset (decodeTable .lenient) >>= LineTableRecord.refuse =
      LineTable.read s offset >>= fun line => .ok line.record := by
  rw [← run_decodeTable_strict]
  exact (Decode.run_check decodeTable_strict).symm

theorem decodeLines_gives {src : Source} {pos : Nat} (lineOffset : Option UInt64) :
    ((lineOffset.mapM fun offset =>
      s.decodeAt .lines offset.toNat (decodeTable strictness) : Decode _) src pos).Gives
      fun lineTable _ => ∀ table ∈ lineTable,
        s.run .lines table.offset (decodeTable strictness) = .ok table := by
  cases lineOffset with
  | none => exact fun table htable => nomatch htable
  | some offset =>
    have hrun : (s.decodeAt .lines offset.toNat (decodeTable strictness) src pos).Gives
        fun table _ => s.run .lines offset.toNat (decodeTable strictness) = .ok table :=
      (Decode.decodeAt_gives .lines offset.toNat _).imp fun _ _ h => h.1
    have hplace : (s.decodeAt .lines offset.toNat (decodeTable strictness) src pos).Gives
        fun table _ => table.offset = offset.toNat :=
      Decode.decodeAt_meets rfl (fun _ => trivial) fun hle =>
        (decodeTable_sound hle).imp fun _ _ h => h.1
    refine .map ((hrun.and hplace).gives.imp fun table _ ⟨htable, hoffset⟩ => ?_)
    simpa [hoffset] using htable

/-- The table of a record is what stands at its own offset. -/
theorem decode_gives {src : Source} {pos : Nat} :
    (decode s strictness src pos).Gives fun (_, record) _ => ∀ table ∈ record.lineTable,
      s.run .lines table.offset (decodeTable strictness) = .ok table := by
  unfold decode
  refine (Outcome.Gives.self _).bind fun header _ _ => .emit_bind ?_
  refine (Outcome.Gives.self _).bind fun root _ _ => ?_
  exact (decodeLines_gives root.lineOffset).bind fun lineTable _ h => h

/-- A unit whose root entry places a line table fails as that table does. -/
theorem decode_of_place {src : Source} {pos : Nat} {offset : UInt64} {e : Error}
    (hplace : (decodePlace s src pos).result = .ok (some offset))
    (herror : (decode s strictness src pos).result = .error e) :
    s.run .lines offset.toNat (decodeTable strictness) = .error e := by
  obtain ⟨header, hheader, hplace⟩ := Decode.exists_of_bind_ok hplace
  obtain ⟨root, hroot, hplace⟩ := Decode.exists_of_bind_ok hplace
  have hoffset : root.lineOffset = some offset := Except.ok.inj hplace
  unfold decode at herror
  rw [Decode.bind_ok hheader] at herror
  change ((decodeRoot s header >>= _) src _).result = _ at herror
  rw [Decode.bind_ok hroot, hoffset] at herror
  simp only [Option.mapM_some, Decode.map_eq_bind, Decode.bind_result, Decode.decodeAt_result]
    at herror
  cases htable : s.run .lines offset.toNat (decodeTable strictness) with
  | ok table =>
    rw [htable] at herror
    cases herror
  | error e' =>
    rw [htable] at herror
    exact congrArg Except.error (Except.error.inj herror)

end UnitRecord

theorem LineTableRecord.refuse_of_mismatch {declared : UInt64} {consumed : Nat}
    (h : table.status = .headerLengthMismatch declared consumed) :
    table.refuse = .error (.headerLengthMismatch table.offset declared consumed) := by
  simp [refuse, mismatch?, h]

theorem LineTableRecord.refuse_of_ne
    (h : ∀ declared consumed, table.status ≠ .headerLengthMismatch declared consumed) :
    table.refuse = .ok table := by
  cases hstatus : table.status with
  | headerLengthMismatch declared consumed => exact absurd hstatus (h declared consumed)
  | decoded => simp [refuse, mismatch?, hstatus]
  | unsupportedVersion => simp [refuse, mismatch?, hstatus]

namespace LineTable

theorem read_of_error {offset : Nat} {e : Error}
    (h : s.run .lines offset (UnitRecord.decodeTable strictness) = .error e) :
    read s offset = .error e := by
  have hread : (read s offset >>= fun line => .ok line.record) = Except.error e := by
    cases strictness with
    | strict => rw [← UnitRecord.run_decodeTable_strict, h]
    | lenient =>
      rw [← UnitRecord.run_decodeTable_lenient, h]
      rfl
  cases hline : read s offset with
  | ok line =>
    rw [hline] at hread
    cases hread
  | error e' =>
    rw [hline] at hread
    exact congrArg Except.error (Except.error.inj hread)

theorem read_of_ok {offset : Nat}
    (h : (read s offset >>= fun line => .ok line.record) = .ok table) :
    ∃ line, read s offset = .ok line ∧ table = line.record := by
  cases hline : read s offset with
  | ok line =>
    rw [hline] at h
    exact ⟨line, rfl, (Except.ok.inj h).symm⟩
  | error e =>
    rw [hline] at h
    cases h

end LineTable

namespace Walker

/-- A step has of a line table what stands in the section, be it a record or an error. -/
theorem steps_tables (s : Sections) (strictness : Strictness) :
    ∀ t ∈ (start s strictness).steps,
      (∀ record table, t.item = .ok record → record.lineTable = some table →
        s.run .lines table.offset (UnitRecord.decodeTable strictness) = .ok table) ∧
      ∀ e offset, t.item = .error e →
        s.run .info t.walker.offset (UnitRecord.decodePlace s) = .ok (some offset) →
        s.run .lines offset.toNat (UnitRecord.decodeTable strictness) = .error e := by
  refine forall_start_steps _ ?_
  rintro w t rfl rfl hnext
  obtain ⟨-, hlt, ⟨header, record, hunit, hitem, -⟩ | ⟨e, hunit, hitem, hw⟩⟩ := next_cases hnext
  · constructor
    · intro record' table hrecord htable
      obtain rfl : record = record' := by simpa [hitem] using hrecord
      exact UnitRecord.decode_gives.of_ok hunit table htable
    · intro e offset he
      rw [hitem] at he
      cases he
  · constructor
    · intro record table hrecord
      rw [hitem] at hrecord
      cases hrecord
    · intro e' offset he hplace
      obtain rfl : e = e' := by simpa [hitem] using he
      have hstart : w.source.start w.offset = .ok w.offset := if_pos (Nat.le_of_lt hlt)
      have hresult : (UnitRecord.decodePlace w.sections w.source w.offset).result =
          .ok (some offset) := by
        rw [hw] at hplace
        change (w.source.start w.offset >>= _) = _ at hplace
        rw [hstart] at hplace
        exact hplace
      exact UnitRecord.decode_of_place hresult hunit

end Walker

/-- The walk and the checked reader say the same of every line table. A table that a strict walk
reports is one that the reader gives, and so in a lenient walk unless its status says that its
length is wrong, which is then the error of the reader. Where the root entry of a unit places a
table, an error of the unit is the error of the reader, in both kinds of walk. -/
theorem walk_tables_checked (s : Sections) :
    (∀ t ∈ (Walker.start s .strict).steps, ∀ record table, t.item = .ok record →
      record.lineTable = some table →
        ∃ line, LineTable.read s table.offset = .ok line ∧ table = line.record) ∧
    (∀ t ∈ (Walker.start s .lenient).steps, ∀ record table, t.item = .ok record →
      record.lineTable = some table →
        ((∀ declared consumed, table.status ≠ .headerLengthMismatch declared consumed) →
          ∃ line, LineTable.read s table.offset = .ok line ∧ table = line.record) ∧
        ∀ declared consumed, table.status = .headerLengthMismatch declared consumed →
          LineTable.read s table.offset =
            .error (.headerLengthMismatch table.offset declared consumed)) ∧
    ∀ strictness, ∀ t ∈ (Walker.start s strictness).steps, ∀ e offset, t.item = .error e →
      s.run .info t.walker.offset (UnitRecord.decodePlace s) = .ok (some offset) →
        LineTable.read s offset.toNat = .error e := by
  refine ⟨fun t ht record table hitem htable => ?_, fun t ht record table hitem htable => ?_,
    fun strictness t ht e offset hitem hplace => ?_⟩
  · have hrun := (Walker.steps_tables s .strict t ht).1 record table hitem htable
    rw [UnitRecord.run_decodeTable_strict] at hrun
    exact LineTable.read_of_ok hrun
  · have hrun := (Walker.steps_tables s .lenient t ht).1 record table hitem htable
    have hread := UnitRecord.run_decodeTable_lenient s table.offset
    rw [hrun] at hread
    change table.refuse = _ at hread
    constructor
    · intro hne
      rw [LineTableRecord.refuse_of_ne hne] at hread
      exact LineTable.read_of_ok hread.symm
    · intro declared consumed hstatus
      have hstrict : s.run .lines table.offset (UnitRecord.decodeTable .strict) =
          .error (.headerLengthMismatch table.offset declared consumed) := by
        rw [UnitRecord.run_decodeTable_strict, ← hread]
        exact LineTableRecord.refuse_of_mismatch hstatus
      exact LineTable.read_of_error hstrict
  · exact LineTable.read_of_error ((Walker.steps_tables s strictness t ht).2 e offset hitem hplace)

/-- A table that is right, and one with a wrong length as each kind of walk comes to it. -/
theorem walk_tables_checked_sample :
    (∃ line, LineTable.read Sample.sections 0 = .ok line ∧ LineTableRecord.mk 0 3 .decoded ["d"]
      [⟨"f", 1⟩] = line.record) ∧
    (∃ t ∈ (Walker.start .misdeclared .lenient).steps, ∃ record table, t.item = .ok record ∧
      record.lineTable = some table ∧ table.offset = 0 ∧
      table.status = .headerLengthMismatch 9 7 ∧
      LineTable.read .misdeclared table.offset = .error (.headerLengthMismatch 0 9 7)) ∧
    ∃ t ∈ (Walker.start .misdeclared .strict).steps,
      t.item = .error (.headerLengthMismatch 0 9 7) ∧
      Sections.misdeclared.run .info t.walker.offset (UnitRecord.decodePlace .misdeclared) =
        .ok (some 0) ∧
      LineTable.read .misdeclared 0 = .error (.headerLengthMismatch 0 9 7) := by
  refine ⟨?_, ?_, ?_⟩
  · have hhead : (Walker.start Sample.sections .strict).steps.head?.map WalkStep.item =
        some (.ok { offset := 0, version := 4, abbrevOffset := 0, addressSize := 8
                    name := some "a", compDir := some "/"
                    lineTable := some (.mk 0 3 .decoded ["d"] [⟨"f", 1⟩]) }) := by
      decide +kernel
    obtain ⟨t, ht, hitem⟩ := Option.map_eq_some_iff.mp hhead
    have hmem : t ∈ (Walker.start Sample.sections .strict).steps := List.mem_of_mem_head? ht
    have hread := (walk_tables_checked Sample.sections).1 t hmem _ _ hitem rfl
    exact hread
  · have hview : (Walker.start .misdeclared .lenient).steps.map WalkStep.view =
        [(.ok { offset := 0, version := 4, abbrevOffset := 0, addressSize := 8, name := none
                compDir := none
                lineTable := some (.mk 0 2 (.headerLengthMismatch 9 7) [] []) }, 16)] := by
      decide +kernel
    obtain ⟨t, hsteps, ht⟩ := List.map_eq_singleton_iff.mp hview
    have hmem : t ∈ (Walker.start .misdeclared .lenient).steps := by simp [hsteps]
    have hitem := congrArg Prod.fst ht
    have hread := ((walk_tables_checked .misdeclared).2.1 t hmem _ _ hitem rfl).2 9 7 rfl
    exact ⟨t, hmem, _, _, hitem, rfl, rfl, rfl, hread⟩
  · have hview : (Walker.start .misdeclared .strict).steps.map WalkStep.view =
        [(.error (.headerLengthMismatch 0 9 7), 0)] := by
      decide +kernel
    obtain ⟨t, hsteps, ht⟩ := List.map_eq_singleton_iff.mp hview
    have hmem : t ∈ (Walker.start .misdeclared .strict).steps := by simp [hsteps]
    have hitem := congrArg Prod.fst ht
    have hoffset : t.walker.offset = 0 := congrArg Prod.snd ht
    have hplace : Sections.misdeclared.run .info t.walker.offset
        (UnitRecord.decodePlace .misdeclared) = .ok (some 0) := by
      rw [hoffset]
      decide +kernel
    exact ⟨t, hmem, hitem, hplace,
      (walk_tables_checked .misdeclared).2.2 .strict t hmem _ 0 hitem hplace⟩

end DwarfUnits
