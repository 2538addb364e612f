import DwarfUnits.Proofs.Walk.Truth

/-! A strict walk is a lenient walk that ends at the first line table with a wrong length. -/
namespace DwarfUnits

/-- What a strict walk says of a table that a lenient walk lets pass. -/
def LineTableRecord.mismatch? (table : LineTableRecord) : Option Error :=
  match table.status with
  | .headerLengthMismatch declared consumed =>
    some (.headerLengthMismatch table.offset declared consumed)
  | _ => none

/-- A table as a strict walk takes it. -/
def LineTableRecord.refuse (table : LineTableRecord) : Except Error LineTableRecord :=
  match table.mismatch? with
  | some e => .error e
  | none => .ok table

namespace UnitRecord

def mismatch? (record : UnitRecord) : Option Error :=
  record.lineTable.bind LineTableRecord.mismatch?

def refuse (pair : UnitHeader × UnitRecord) : Except Error (UnitHeader × UnitRecord) :=
  match pair.2.mismatch? with
  | some e => .error e
  | none => .ok pair

theorem decodeTable_strict (src : Source) (pos : Nat) :
    (decodeTable .strict src pos).result = (decodeTable .lenient src pos).result >>=
      LineTableRecord.refuse := by
  unfold decodeTable
  rw [Decode.bind_result, Decode.bind_result]
  cases (LineTable.decode src pos).result with
  | error e => rfl
  | ok table =>
    cases table with
    | unsupported offset version => rfl
    | supported header =>
      dsimp only [Bind.bind, Except.bind]
      by_cases hlength : header.consumed = header.headerLength.toNat
      · simp only [tableStatus_of_eq hlength]
        rfl
      · simp only [tableStatus_lenient hlength, tableStatus_strict hlength]
        rfl

/-- Decoding of a unit differs in the two modes only where a line table is refused. -/
theorem decode_strict (s : Sections) (src : Source) (pos : Nat) :
    (decode s .strict src pos).result = (decode s .lenient src pos).result >>= refuse := by
  unfold decode
  refine Decode.bind_result_check fun header p₁ => Decode.bind_result_check fun _ p₂ =>
    Decode.bind_result_check fun root p₃ => ?_
  cases root.lineOffset with
  | none => rfl
  | some offset =>
    simp only [Option.mapM_some, Decode.map_eq_bind, Decode.bind_result]
    rw [Decode.decodeAt_result, Decode.decodeAt_result, Decode.run_check decodeTable_strict]
    cases s.run .lines offset.toNat (decodeTable .lenient) with
    | error e => rfl
    | ok table =>
      cases h : table.mismatch? <;>
        simp [LineTableRecord.refuse, refuse, mismatch?, h, Decode.pure_apply, Bind.bind, Except.bind]

end UnitRecord

/-- What a step shows from outside: its item and where it leaves the walker. -/
def WalkStep.view (t : WalkStep) : Except Error UnitRecord × Nat := (t.item, t.walker.offset)

/-- A unit whose line table a lenient walk lets pass with a wrong header length. -/
def WalkStep.Suspect (t : WalkStep) : Prop :=
  ∃ record table declared consumed, t.item = .ok record ∧ record.lineTable = some table ∧
    table.status = .headerLengthMismatch declared consumed

theorem UnitRecord.mismatch?_eq_some {record : UnitRecord} {table : LineTableRecord}
    {declared : UInt64} {consumed : Nat} (ht : record.lineTable = some table)
    (hs : table.status = .headerLengthMismatch declared consumed) :
    record.mismatch? = some (.headerLengthMismatch table.offset declared consumed) := by
  simp [mismatch?, LineTableRecord.mismatch?, ht, hs]

theorem WalkStep.suspect_iff {t : WalkStep} {record : UnitRecord} (h : t.item = .ok record) :
    t.Suspect ↔ record.mismatch? ≠ none := by
  constructor
  · rintro ⟨_, table, declared, consumed, hitem, ht, hs⟩
    obtain rfl : record = _ := by simpa [h] using hitem
    simp [UnitRecord.mismatch?_eq_some ht hs]
  · intro hm
    unfold UnitRecord.mismatch? LineTableRecord.mismatch? at hm
    cases ht : record.lineTable with
    | none => simp [ht] at hm
    | some table =>
      cases hs : table.status with
      | headerLengthMismatch declared consumed =>
        exact ⟨record, table, declared, consumed, h, ht, hs⟩
      | decoded => simp [ht, hs] at hm
      | unsupportedVersion => simp [ht, hs] at hm

namespace Walker

variable {w : Walker}

def strictly (w : Walker) : Walker := { w with strictness := .strict }

theorem unit_strictly (hw : w.strictness = .lenient) :
    w.strictly.unit = w.unit >>= UnitRecord.refuse := by
  unfold unit
  rw [hw]
  exact UnitRecord.decode_strict w.sections w.source w.offset

/-- The views of a lenient walk as a strict one has them: the first suspect unit is refused. -/
def cut : List WalkStep → List (Except Error UnitRecord × Nat)
  | [] => []
  | t :: rest =>
    match t.item with
    | .error _ => t.view :: cut rest
    | .ok record =>
      match record.mismatch? with
      | some e => [(.error e, record.offset)]
      | none => t.view :: cut rest

theorem view_steps_strictly (hw : w.strictness = .lenient) :
    w.strictly.steps.map WalkStep.view = cut w.steps := by
  fun_induction steps w with
  | case1 w h =>
    have hend := next_eq_none_iff.mp h
    have hstrict : w.strictly.next = none := next_eq_none_iff.mpr hend
    rw [steps_of_next_eq_none hstrict]
    rfl
  | case2 w t h ih =>
    obtain ⟨hopen, hlt, ⟨header, record, hunit, hitem, ht⟩ | ⟨e, hunit, hitem, ht⟩⟩ := next_cases h
    · have hrecord := (unit_of_ok hunit (Nat.le_of_lt hlt)).1
      have hstrict : w.strictly.unit = UnitRecord.refuse (header, record) := by
        rw [unit_strictly hw, hunit]
        rfl
      cases hm : record.mismatch? with
      | none =>
        simp only [UnitRecord.refuse, hm] at hstrict
        obtain ⟨u, hu, huitem, huw⟩ := next_of_ok (w := w.strictly) hopen hlt hstrict
        have hwalker : u.walker = t.walker.strictly := by rw [huw, ht]; rfl
        have hrest := ih (by rw [ht]; exact hw)
        rw [steps_of_next_eq_some hu, List.map_cons, hwalker, hrest, cut, hitem]
        simp only [hm, WalkStep.view, hitem, huitem, hwalker, strictly]
      | some e =>
        simp only [UnitRecord.refuse, hm] at hstrict
        obtain ⟨u, hu, huitem, huw⟩ := next_of_error (w := w.strictly) hopen hlt hstrict
        rw [steps_of_next_eq_some hu, steps_of_next_eq_none (steps_of_error hu huitem), cut, hitem]
        simp [hm, WalkStep.view, huitem, huw, strictly, hrecord]
    · have hstrict : w.strictly.unit = .error e := by
        rw [unit_strictly hw, hunit]
        rfl
      obtain ⟨u, hu, huitem, huw⟩ := next_of_error (w := w.strictly) hopen hlt hstrict
      rw [steps_of_next_eq_some hu, steps_of_next_eq_none (steps_of_error hu huitem), cut, hitem]
      rw [steps_of_next_eq_none (steps_of_error h hitem)]
      simp [cut, WalkStep.view, hitem, huitem, huw, ht, strictly]

/-- A strict walk goes through units that are not suspect as a lenient one does. -/
theorem cut_append {before : List WalkStep} (rest : List WalkStep)
    (h : ∀ t ∈ before, ¬t.Suspect) : cut (before ++ rest) = before.map WalkStep.view ++ cut rest := by
  induction before with
  | nil => rfl
  | cons t before ih =>
    obtain ⟨ht, hbefore⟩ := List.forall_mem_cons.mp h
    rw [List.cons_append, cut, ih hbefore]
    cases hitem : t.item with
    | error e => rfl
    | ok record =>
      have hm : record.mismatch? = none := by simpa [WalkStep.suspect_iff hitem] using ht
      simp [hm]

theorem cut_cons_suspect {t : WalkStep} (rest : List WalkStep) {record : UnitRecord} {e : Error}
    (hitem : t.item = .ok record) (he : record.mismatch? = some e) :
    cut (t :: rest) = [(.error e, record.offset)] := by
  rw [cut, hitem]
  simp [he]

theorem not_suspect_of_strict (hw : w.strictness = .strict) : ∀ t ∈ w.steps, ¬t.Suspect := by
  refine forall_steps (fun w => w.strictness = .strict) _ (fun w t hw h => ?_) hw
  obtain ⟨-, -, ⟨header, record, hunit, hitem, ht⟩ | ⟨e, -, hitem, ht⟩⟩ := next_cases h
  · refine ⟨?_, by rw [ht]; exact hw⟩
    unfold unit at hunit
    rw [hw, UnitRecord.decode_strict] at hunit
    cases hd : (UnitRecord.decode w.sections .lenient w.source w.offset).result with
    | error e =>
      rw [hd] at hunit
      cases hunit
    | ok pair =>
      rw [hd] at hunit
      change UnitRecord.refuse pair = _ at hunit
      unfold UnitRecord.refuse at hunit
      split at hunit
      · cases hunit
      · obtain rfl := Except.ok.inj hunit
        simpa [WalkStep.suspect_iff hitem]
  · refine ⟨?_, by rw [ht]; exact hw⟩
    rintro ⟨record, _, _, _, hok, -⟩
    rw [hitem] at hok
    cases hok

end Walker

/-- A strict walk is the lenient walk up to its first suspect unit, where it stops. -/
theorem strict_walk_cuts_lenient (s : Sections) :
    let lenient := (Walker.start s .lenient).steps
    let strict := (Walker.start s .strict).steps
    ((∀ t ∈ lenient, ¬t.Suspect) →
      strict.map WalkStep.view = lenient.map WalkStep.view) ∧
    (∀ before t after record table declared consumed, lenient = before ++ t :: after →
      (∀ u ∈ before, ¬u.Suspect) → t.item = .ok record → record.lineTable = some table →
      table.status = .headerLengthMismatch declared consumed →
      strict.map WalkStep.view = before.map WalkStep.view ++
        [(.error (.headerLengthMismatch table.offset declared consumed), record.offset)]) ∧
    (∀ t ∈ strict.getLast?, t.walker.next = none) ∧
    (∀ t ∈ lenient, ∀ offset declared consumed,
      t.item ≠ .error (.headerLengthMismatch offset declared consumed)) ∧
    ∀ t ∈ strict, ¬t.Suspect := by
  intro lenient strict
  have hcut : strict.map WalkStep.view = Walker.cut lenient :=
    Walker.view_steps_strictly (w := Walker.start s .lenient) rfl
  refine ⟨fun h => ?_, fun before t after record table declared consumed hsplit hbefore hitem
    htable hstatus => ?_, Walker.next_getLast?_steps, ?_, Walker.not_suspect_of_strict rfl⟩
  · simpa [hcut, Walker.cut] using Walker.cut_append [] h
  · have he := UnitRecord.mismatch?_eq_some htable hstatus
    rw [hcut, hsplit, Walker.cut_append _ hbefore, Walker.cut_cons_suspect _ hitem he]
  · intro t ht offset declared consumed hitem
    have htrue := Walker.steps_truthful s .lenient t ht _ hitem
    cases htrue.1

theorem strict_walk_cuts_lenient_misdeclared :
    (Walker.start .misdeclared .strict).steps.map WalkStep.view =
      [(.error (.headerLengthMismatch 0 9 7), 0)] := by
  have hview : (Walker.start .misdeclared .lenient).steps.map WalkStep.view =
      [(.ok { offset := 0, version := 4, abbrevOffset := 0, addressSize := 8, name := none
              compDir := none
              lineTable := some { offset := 0, version := 2, status := .headerLengthMismatch 9 7
                                  directories := [], files := [] } }, 16)] := by
    decide +kernel
  obtain ⟨t, hsteps, ht⟩ := List.map_eq_singleton_iff.mp hview
  exact (strict_walk_cuts_lenient .misdeclared).2.1 [] t [] _ _ 9 7 hsteps (by simp)
    (congrArg Prod.fst ht) rfl rfl

end DwarfUnits
