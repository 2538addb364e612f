import DwarfUnits.Walk

/-! The steps of a walk: all that one can do, and what follows for all of them in a row. -/
namespace DwarfUnits.Walker

variable {w : Walker} {t : WalkStep}

/-- The unit under a walker. -/
def unit (w : Walker) : Except Error (UnitHeader × UnitRecord) :=
  (UnitRecord.decode w.sections w.strictness w.source w.offset).result

theorem next_eq_none_iff :
    w.next = none ↔ w.finished = true ∨ w.sections.info.size ≤ w.offset := by
  unfold next remaining
  cases w.finished <;> simp [Nat.sub_eq_zero_iff_le]

theorem exists_next (hopen : w.finished = false) (hlt : w.offset < w.sections.info.size) :
    ∃ t, w.next = some t := by
  rw [← Option.ne_none_iff_exists', ne_eq, next_eq_none_iff]
  simpa [hopen] using hlt

/-- A step is of one of two kinds: a unit moves the walker past it, an error stops it there. -/
theorem next_cases (h : w.next = some t) :
    w.finished = false ∧ w.offset < w.sections.info.size ∧
      ((∃ header record, w.unit = .ok (header, record) ∧ t.item = .ok record ∧
          t.walker = { w with offset := w.offset + header.extent }) ∨
        ∃ e, w.unit = .error e ∧ t.item = .error e ∧ t.walker = { w with finished := true }) := by
  have hopen : ¬(w.finished = true ∨ w.sections.info.size ≤ w.offset) := by
    rw [← next_eq_none_iff, h]
    simp
  simp only [not_or, Bool.not_eq_true, Nat.not_le] at hopen
  refine ⟨hopen.1, hopen.2, ?_⟩
  unfold next at h
  split at h
  · cases h
  · obtain rfl := Option.some.inj h
    unfold stepOf unit
    cases (UnitRecord.decode w.sections w.strictness w.source w.offset).result with
    | ok pair => exact Or.inl ⟨pair.1, pair.2, rfl, rfl, rfl⟩
    | error e => exact Or.inr ⟨e, rfl, rfl, rfl⟩

theorem next_of_ok {header : UnitHeader} {record : UnitRecord} (hopen : w.finished = false)
    (hlt : w.offset < w.sections.info.size) (h : w.unit = .ok (header, record)) :
    ∃ t, w.next = some t ∧ t.item = .ok record ∧
      t.walker = { w with offset := w.offset + header.extent } := by
  obtain ⟨t, ht⟩ := exists_next hopen hlt
  obtain ⟨-, -, ⟨_, _, hunit, hitem, hw⟩ | ⟨_, hunit, -, -⟩⟩ := next_cases ht
  · obtain ⟨rfl, rfl⟩ : header = _ ∧ record = _ := by simpa [h] using hunit
    exact ⟨t, ht, hitem, hw⟩
  · rw [h] at hunit
    cases hunit

theorem next_of_error {e : Error} (hopen : w.finished = false)
    (hlt : w.offset < w.sections.info.size) (h : w.unit = .error e) :
    ∃ t, w.next = some t ∧ t.item = .error e ∧ t.walker = { w with finished := true } := by
  obtain ⟨t, ht⟩ := exists_next hopen hlt
  obtain ⟨-, -, ⟨_, _, hunit, -, -⟩ | ⟨_, hunit, hitem, hw⟩⟩ := next_cases ht
  · rw [h] at hunit
    cases hunit
  · obtain rfl : e = _ := by simpa [h] using hunit
    exact ⟨t, ht, hitem, hw⟩

/-- What a step keeps, and what holds of it, holds of all steps of a run. -/
theorem forall_steps (inv : Walker → Prop) (good : WalkStep → Prop)
    (hstep : ∀ w t, inv w → w.next = some t → good t ∧ inv t.walker) (hw : inv w) :
    ∀ t ∈ w.steps, good t := by
  fun_induction steps w with
  | case1 w h => simp
  | case2 w t h ih =>
    obtain ⟨hgood, hinv⟩ := hstep w t hw h
    simpa using ⟨hgood, ih hinv⟩

theorem next_keeps (h : w.next = some t) :
    t.walker.sections = w.sections ∧ t.walker.strictness = w.strictness := by
  obtain ⟨-, -, ⟨_, _, -, -, hw⟩ | ⟨_, -, -, hw⟩⟩ := next_cases h <;> simp [hw]

/-- What holds of each step on the sections of a walk holds along the walk. -/
theorem forall_start_steps {s : Sections} {strictness : Strictness} (good : WalkStep → Prop)
    (hstep : ∀ (w : Walker) t, w.sections = s → w.strictness = strictness → w.next = some t →
      good t) :
    ∀ t ∈ (start s strictness).steps, good t := by
  refine forall_steps (fun w => w.sections = s ∧ w.strictness = strictness) good ?_ ⟨rfl, rfl⟩
  rintro w t ⟨hs, hstrictness⟩ hnext
  obtain ⟨hsections, hkept⟩ := next_keeps hnext
  exact ⟨hstep w t hs hstrictness hnext, hsections.trans hs, hkept.trans hstrictness⟩

theorem steps_of_next_eq_none (h : w.next = none) : w.steps = [] := by
  rw [steps]
  split
  · rfl
  · simp_all

theorem steps_of_next_eq_some (h : w.next = some t) : w.steps = t :: t.walker.steps := by
  rw [steps]
  split <;> simp_all

/-- An error is the last item of a walk. -/
theorem steps_of_error {e : Error} (h : w.next = some t) (he : t.item = .error e) :
    t.walker.next = none := by
  obtain ⟨-, -, ⟨_, _, -, hok, -⟩ | ⟨_, -, -, hw⟩⟩ := next_cases h
  · rw [hok] at he
    cases he
  · exact next_eq_none_iff.mpr (Or.inl (by rw [hw]))

theorem next_getLast?_steps : ∀ t ∈ w.steps.getLast?, t.walker.next = none := by
  fun_induction steps w with
  | case1 w h => simp
  | case2 w t h ih =>
    cases hn : t.walker.next with
    | none => simp [steps_of_next_eq_none hn, hn]
    | some u =>
      rw [steps_of_next_eq_some hn] at ih ⊢
      simpa using ih

theorem split_steps_error_iff {e : Error} :
    (WalkStep.split w.steps).2 = some e ↔ ∃ t ∈ w.steps, t.item = .error e := by
  fun_induction steps w with
  | case1 w h => simp [WalkStep.split]
  | case2 w t h ih =>
    cases hitem : t.item with
    | ok record => simpa [WalkStep.split, hitem] using ih
    | error e' =>
      rw [steps_of_next_eq_none (steps_of_error h hitem)]
      simp [WalkStep.split, hitem]

end DwarfUnits.Walker

namespace DwarfUnits

theorem WalkStep.split_eq_iff {steps : List WalkStep} {units : List UnitRecord} :
    split steps = (units, none) ↔ steps.map item = units.map .ok := by
  induction steps generalizing units with
  | nil => simp [split, eq_comm]
  | cons t rest ih =>
    cases hitem : t.item with
    | error e => cases units <;> simp [split, hitem]
    | ok record =>
      rcases hs : split rest with ⟨records, error⟩
      cases units with
      | nil => simp [split, hitem, hs]
      | cons unit units => simp [split, hitem, hs, ← ih, and_assoc]

variable {s : Sections} {strictness : Strictness}

/-- A walk fails with the error that it meets, and otherwise reports every unit. -/
theorem walk_error_iff {e : Error} :
    (walk s strictness).1 = .error e ↔
      ∃ t ∈ (Walker.start s strictness).steps, t.item = .error e := by
  rw [← Walker.split_steps_error_iff]
  unfold walk
  dsimp only
  split <;> simp_all

theorem walk_ok_iff {report : Report} :
    (walk s strictness).1 = .ok report ↔
      (Walker.start s strictness).steps.map WalkStep.item = report.units.map .ok := by
  rw [← WalkStep.split_eq_iff]
  unfold walk
  dsimp only
  rcases report with ⟨units⟩
  split <;> simp_all

end DwarfUnits
