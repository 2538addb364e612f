import DwarfUnits.Proofs.Walk.Truth

/-! A walker under any number of calls: where it stands, what it yields and when it ends. -/
namespace DwarfUnits.Walker

/-- One call for the next unit: what it yields, and the walker after it. -/
def call (w : Walker) : Option (Except Error UnitRecord) × Walker :=
  match w.next with
  | none => (none, w)
  | some t => (some t.item, t.walker)

def after (w : Walker) : Nat → Walker
  | 0 => w
  | n + 1 => (w.after n).call.2

/-- What the call after `n` others yields. -/
def yields (w : Walker) (n : Nat) : Option (Except Error UnitRecord) := (w.after n).call.1

/-- The units that the first `n` calls yield. -/
def records (w : Walker) : Nat → List UnitRecord
  | 0 => []
  | n + 1 =>
    match w.call with
    | (some (.ok record), next) => record :: next.records n
    | (_, next) => next.records n

variable {w : Walker}

theorem call_of_next_eq_some {t : WalkStep} (h : w.next = some t) :
    w.call = (some t.item, t.walker) := by
  simp [call, h]

/-- A call that yields nothing leaves the walker, which has ended or stands past its section. -/
theorem call_eq_none_iff :
    w.call.1 = none ↔ w.finished = true ∨ w.sections.info.size ≤ w.offset := by
  rw [← next_eq_none_iff]
  unfold call
  cases w.next <;> simp

theorem call_of_none (h : w.call.1 = none) : w.call.2 = w := by
  unfold call at h ⊢
  cases hnext : w.next with
  | none => rfl
  | some t => simp [hnext] at h

/-- A unit moves the walker past it, and takes twelve bytes of the section or more. -/
theorem call_of_ok {record : UnitRecord} (h : w.call.1 = some (.ok record)) :
    record.offset = w.offset ∧ w.offset + 12 ≤ w.sections.info.size ∧
      ∃ header, (UnitHeader.decode w.source w.offset).result = .ok header ∧
        w.call.2 = { w with offset := w.offset + header.extent } ∧
        w.offset + header.extent < UInt64.size := by
  cases hnext : w.next with
  | none => simp [call, hnext] at h
  | some t =>
    rw [call_of_next_eq_some hnext] at h ⊢
    obtain ⟨-, hlt, ⟨header, record', hunit, hitem, hw⟩ | ⟨e, -, hitem, hw⟩⟩ := next_cases hnext
    · obtain rfl : record' = record := by simpa [hitem] using h
      obtain ⟨hrecord, hheader, hlimit, htwelve, hdecode⟩ := unit_of_ok hunit (Nat.le_of_lt hlt)
      exact ⟨hrecord, htwelve, header, hdecode, hw, hheader ▸ hlimit⟩
    · simp [hitem] at h

theorem call_of_error {e : Error} (h : w.call.1 = some (.error e)) :
    w.call.2 = { w with finished := true } := by
  cases hnext : w.next with
  | none => simp [call, hnext] at h
  | some t =>
    rw [call_of_next_eq_some hnext] at h ⊢
    obtain ⟨-, -, ⟨_, _, -, hitem, -⟩ | ⟨_, -, -, hw⟩⟩ := next_cases hnext
    · simp [hitem] at h
    · exact hw

/-- What a call never changes, and what it moves forward. -/
theorem call_keeps (w : Walker) : w.call.2.sections = w.sections ∧
    w.call.2.strictness = w.strictness ∧ w.offset ≤ w.call.2.offset := by
  rcases h : w.call.1 with _ | e | record
  · rw [call_of_none h]
    exact ⟨rfl, rfl, Nat.le_refl _⟩
  · rw [call_of_error h]
    exact ⟨rfl, rfl, Nat.le_refl _⟩
  · obtain ⟨-, -, header, -, hw, -⟩ := call_of_ok h
    rw [hw]
    exact ⟨rfl, rfl, Nat.le_add_right _ _⟩

theorem after_keeps (w : Walker) (m n : Nat) :
    (w.after (m + n)).sections = (w.after m).sections ∧
      (w.after (m + n)).strictness = (w.after m).strictness ∧
      (w.after m).offset ≤ (w.after (m + n)).offset := by
  induction n with
  | zero => exact ⟨rfl, rfl, Nat.le_refl _⟩
  | succ n ih =>
    obtain ⟨hsections, hstrictness, hoffset⟩ := call_keeps (w.after (m + n))
    exact ⟨hsections.trans ih.1, hstrictness.trans ih.2.1, Nat.le_trans ih.2.2 hoffset⟩

theorem after_start_sections (s : Sections) (strictness : Strictness) (n : Nat) :
    ((start s strictness).after n).sections = s := by
  simpa [start, after] using (after_keeps (start s strictness) 0 n).1

/-- A walker that yields nothing yields nothing any more and stands still. -/
theorem after_of_none {m : Nat} (h : w.yields m = none) (n : Nat) :
    w.after (m + n) = w.after m ∧ w.yields (m + n) = none := by
  induction n with
  | zero => exact ⟨rfl, h⟩
  | succ n ih =>
    have hw : w.after (m + (n + 1)) = w.after m := (call_of_none ih.2).trans ih.1
    exact ⟨hw, by rw [yields, hw]; exact h⟩

theorem yields_of_error {m : Nat} {e : Error} (h : w.yields m = some (.error e)) :
    w.yields (m + 1) = none ∧ (w.after (m + 1)).offset = (w.after m).offset := by
  have hw : w.after (m + 1) = { w.after m with finished := true } := call_of_error h
  exact ⟨by rw [yields, call_eq_none_iff, hw]; exact Or.inl rfl, by rw [hw]⟩

/-- Nothing changes after the end, whether an error or the section's end brought it. -/
theorem frozen {m n : Nat} (hmn : m < n)
    (h : w.yields m = none ∨ ∃ e, w.yields m = some (.error e)) :
    w.yields n = none ∧ (w.after n).offset = (w.after m).offset := by
  obtain ⟨k, rfl⟩ : ∃ k, n = m + 1 + k := ⟨n - (m + 1), by omega⟩
  obtain h | ⟨e, h⟩ := h
  · obtain ⟨hw, hnone⟩ := after_of_none h (1 + k)
    rw [← Nat.add_assoc] at hw hnone
    exact ⟨hnone, by rw [hw]⟩
  · obtain ⟨hnone, hoffset⟩ := yields_of_error h
    obtain ⟨hw, hnone'⟩ := after_of_none hnone k
    exact ⟨hnone', by rw [hw, hoffset]⟩

/-- Only an error finishes a walker. -/
theorem error_of_finished (hopen : w.finished = false) {n : Nat}
    (h : (w.after n).finished = true) : ∃ m < n, ∃ e, w.yields m = some (.error e) := by
  induction n with
  | zero => simp [after, hopen] at h
  | succ n ih =>
    rcases hcall : w.yields n with _ | e | record
    · rw [after, call_of_none hcall] at h
      obtain ⟨m, hm, he⟩ := ih h
      exact ⟨m, Nat.lt_succ_of_lt hm, he⟩
    · exact ⟨n, Nat.lt_succ_self n, e, hcall⟩
    · obtain ⟨-, -, header, -, hw, -⟩ := call_of_ok hcall
      rw [after, hw] at h
      obtain ⟨m, hm, he⟩ := ih h
      exact ⟨m, Nat.lt_succ_of_lt hm, he⟩

theorem after_succ (w : Walker) (n : Nat) : w.after (n + 1) = w.call.2.after n := by
  induction n with
  | zero => rfl
  | succ n ih => rw [after, ih, after]

theorem yields_succ (w : Walker) (n : Nat) : w.yields (n + 1) = w.call.2.yields n := by
  rw [yields, after_succ, yields]

theorem records_succ_of_ok {record : UnitRecord} (h : w.call.1 = some (.ok record)) (n : Nat) :
    w.records (n + 1) = record :: w.call.2.records n := by
  rw [records]
  split <;> simp_all

theorem records_succ_of_ne (h : ∀ record, w.call.1 ≠ some (.ok record)) (n : Nat) :
    w.records (n + 1) = w.call.2.records n := by
  rw [records]
  split <;> simp_all

theorem four_le_extent (h : UnitHeader) : 4 ≤ h.extent := by
  have hsize : 4 ≤ h.format.lengthSize := by cases h.format <;> decide
  exact Nat.le_trans hsize (Nat.le_add_right _ _)

/-- Units start four bytes apart at least, and the last has twelve bytes left. -/
theorem records_bound (w : Walker) (n : Nat) (h : w.records n ≠ []) :
    w.offset + 4 * (w.records n).length + 8 ≤ w.sections.info.size := by
  induction n generalizing w with
  | zero => exact absurd rfl h
  | succ n ih =>
    by_cases hcall : ∃ record, w.call.1 = some (.ok record)
    · obtain ⟨record, hcall⟩ := hcall
      obtain ⟨-, htwelve, header, -, hw, -⟩ := call_of_ok hcall
      have hfour := four_le_extent header
      rw [records_succ_of_ok hcall, List.length_cons]
      by_cases hrest : w.call.2.records n = []
      · rw [hrest, List.length_nil]
        omega
      · have hbound := ih _ hrest
        have hoffset : w.call.2.offset = w.offset + header.extent := by rw [hw]
        rw [(call_keeps w).1, hoffset] at hbound
        omega
    · rw [records_succ_of_ne (fun record hr => hcall ⟨record, hr⟩)] at h ⊢
      have hbound := ih _ h
      obtain ⟨hsections, -, hoffset⟩ := call_keeps w
      rw [hsections] at hbound
      omega

theorem records_length_le (w : Walker) (n : Nat) :
    (w.records n).length ≤ (w.sections.info.size - 8) / 4 := by
  by_cases h : w.records n = []
  · simp [h]
  · have := records_bound w n h
    omega

theorem records_length_of_ok {n : Nat}
    (h : ∀ m < n, ∃ record, w.yields m = some (.ok record)) : (w.records n).length = n := by
  induction n generalizing w with
  | zero => rfl
  | succ n ih =>
    obtain ⟨record, hrecord⟩ := h 0 (Nat.succ_pos n)
    have hcall : w.call.1 = some (.ok record) := hrecord
    rw [records_succ_of_ok hcall, List.length_cons]
    refine congrArg (· + 1) (ih fun m hm => ?_)
    rw [← yields_succ]
    exact h (m + 1) (Nat.succ_lt_succ hm)

/-- A walk ends, at the latest with the call after as many units as the section has room for. -/
theorem exists_yields_none (w : Walker) :
    ∃ n ≤ (w.sections.info.size - 8) / 4 + 1, w.yields n = none := by
  refine Classical.byContradiction fun hall => ?_
  simp only [not_exists, not_and] at hall
  have hok : ∀ m < (w.sections.info.size - 8) / 4 + 1, ∃ record, w.yields m = some (.ok record) := by
    intro m hm
    rcases h : w.yields m with _ | e | record
    · exact absurd h (hall m (Nat.le_of_lt hm))
    · exact absurd (yields_of_error h).1 (hall (m + 1) hm)
    · exact ⟨record, rfl⟩
  have hlength := records_length_of_ok hok
  have hle := records_length_le w ((w.sections.info.size - 8) / 4 + 1)
  omega

/-- The steps of a walk are its calls up to the first that yields nothing. -/
theorem yields_eq_getElem? (w : Walker) (n : Nat) :
    w.yields n = w.steps[n]?.map WalkStep.item := by
  induction n generalizing w with
  | zero =>
    cases h : w.next with
    | none => simp [steps_of_next_eq_none h, yields, after, call, h]
    | some t => simp [steps_of_next_eq_some h, yields, after, call, h]
  | succ n ih =>
    rw [yields_succ, ih]
    cases h : w.next with
    | none => simp [steps_of_next_eq_none h, call, h]
    | some t => simp [steps_of_next_eq_some h, call, h]

/-- Without an error the units of the calls up to the end are those of the steps. -/
theorem map_item_steps {n : Nat} (hn : w.yields n = none)
    (hok : ∀ m e, w.yields m ≠ some (.error e)) :
    w.steps.map WalkStep.item = (w.records n).map .ok := by
  induction n generalizing w with
  | zero =>
    have hlength : w.steps.length ≤ 0 := by simpa [yields_eq_getElem?] using hn
    simp [List.eq_nil_of_length_eq_zero (Nat.le_zero.mp hlength), records]
  | succ n ih =>
    have hrest := ih (w := w.call.2) (by rw [← yields_succ]; exact hn) fun m e => by
      rw [← yields_succ]
      exact hok (m + 1) e
    rcases hcall : w.call.1 with _ | e | record
    · rw [call_of_none hcall] at hrest
      rw [records_succ_of_ne (by simp [hcall]), call_of_none hcall, hrest]
    · exact absurd hcall (hok 0 e)
    · cases hnext : w.next with
      | none => simp [call, hnext] at hcall
      | some t =>
        have hitem : t.item = .ok record := by simpa [call, hnext] using hcall
        have hwalker : w.call.2 = t.walker := by simp [call, hnext]
        rw [records_succ_of_ok hcall, steps_of_next_eq_some hnext]
        rw [List.map_cons, List.map_cons, hitem, ← hrest, hwalker]

/-- What holds of a walk from the start under any number of calls for the next unit. -/
structure Run (s : Sections) (strictness : Strictness) (w : Walker) : Prop where
  starts : (w.after 0).offset = 0
  /-- A unit is told at the offset reached, and the next starts where its length says. -/
  moves : ∀ n record, w.yields n = some (.ok record) →
    record.offset = (w.after n).offset ∧
    ∃ header, (UnitHeader.decode ⟨.info, s.order, s.info⟩ (w.after n).offset).result = .ok header ∧
      (w.after (n + 1)).offset =
        (w.after n).offset + (2 * header.format.offsetSize - 4) + header.length.toNat ∧
      (w.after n).offset + 4 ≤ (w.after (n + 1)).offset ∧
      (w.after (n + 1)).offset < UInt64.size
  increases : ∀ m n first second, m < n → w.yields m = some (.ok first) →
    w.yields n = some (.ok second) → first.offset < second.offset
  inside : ∀ n record, w.yields n = some (.ok record) → record.offset < s.info.size
  /-- An error leaves the offset at the unit that has it. -/
  stays : ∀ n e, w.yields n = some (.error e) → (w.after (n + 1)).offset = (w.after n).offset
  /-- After the first error, or the first call that yields nothing, nothing changes. -/
  freezes : ∀ m n, m < n → (w.yields m = none ∨ ∃ e, w.yields m = some (.error e)) →
    w.yields n = none ∧ (w.after n).offset = (w.after m).offset
  /-- Without an error the walk goes through the whole section. -/
  covers : ∀ n, w.yields n = none → (∀ m < n, ∀ e, w.yields m ≠ some (.error e)) →
    s.info.size ≤ (w.after n).offset
  counts : ∀ n, (w.records n).length ≤ (s.info.size - 8) / 4
  one_error : ∀ m n e e', w.yields m = some (.error e) → w.yields n = some (.error e') → m = n
  ends : ∃ n ≤ (s.info.size - 8) / 4 + 1, w.yields n = none
  /-- The whole walk fails with the error, and reports the units if there is none. -/
  error_iff : ∀ e, (walk s strictness).1 = .error e ↔ ∃ n, w.yields n = some (.error e)
  report : ∀ n, w.yields n = none → (∀ m e, w.yields m ≠ some (.error e)) →
    (walk s strictness).1 = .ok { units := w.records n }

theorem extent_eq (h : UnitHeader) :
    h.extent = (2 * h.format.offsetSize - 4) + h.length.toNat := by
  unfold UnitHeader.extent UnitHeader.extentOf
  cases h.format <;> rfl

/-- What the walk has done when a call yields a unit. -/
theorem after_of_ok {s : Sections} {strictness : Strictness} {n : Nat} {record : UnitRecord}
    (h : (start s strictness).yields n = some (.ok record)) :
    record.offset = ((start s strictness).after n).offset ∧
      ((start s strictness).after n).offset + 12 ≤ s.info.size ∧
      ∃ header, (UnitHeader.decode ⟨.info, s.order, s.info⟩
          ((start s strictness).after n).offset).result = .ok header ∧
        ((start s strictness).after (n + 1)).offset =
          ((start s strictness).after n).offset + header.extent ∧
        ((start s strictness).after (n + 1)).offset < UInt64.size := by
  obtain ⟨hrecord, htwelve, header, hdecode, hw, hlimit⟩ := call_of_ok h
  have hs := after_start_sections s strictness n
  have hnext : ((start s strictness).after (n + 1)).offset =
      ((start s strictness).after n).offset + header.extent := by rw [after, hw]
  unfold source at hdecode
  rw [hs] at htwelve hdecode
  exact ⟨hrecord, htwelve, header, hdecode, hnext, hnext ▸ hlimit⟩

/-- A walk moves by the lengths of its units, ends on every input, and fails at most once. -/
theorem run_start (s : Sections) (strictness : Strictness) :
    Run s strictness (start s strictness) where
  starts := rfl
  moves n record h := by
    obtain ⟨hrecord, -, header, hdecode, hnext, hlimit⟩ := after_of_ok h
    have hfour := four_le_extent header
    refine ⟨hrecord, header, hdecode, ?_, by omega, hlimit⟩
    rw [hnext, extent_eq, Nat.add_assoc]
  increases m n first second hmn hfirst hsecond := by
    obtain ⟨hoffset, -, header, -, hnext, -⟩ := after_of_ok hfirst
    obtain ⟨hoffset', -, -⟩ := after_of_ok hsecond
    have hpos := header.extent_pos
    have hle := (after_keeps (start s strictness) (m + 1) (n - (m + 1))).2.2
    rw [show m + 1 + (n - (m + 1)) = n by omega] at hle
    omega
  inside n record h := by
    obtain ⟨hoffset, htwelve, -⟩ := after_of_ok h
    omega
  stays n e h := (yields_of_error h).2
  freezes m n hmn h := frozen hmn h
  covers n h hok := by
    obtain hfinished | hle := call_eq_none_iff.mp h
    · obtain ⟨m, hm, e, he⟩ := error_of_finished rfl hfinished
      exact absurd he (hok m hm e)
    · rwa [after_start_sections] at hle
  counts n := records_length_le (start s strictness) n
  one_error m n e e' h h' := by
    rcases Nat.lt_trichotomy m n with hlt | heq | hgt
    · rw [(frozen hlt (Or.inr ⟨e, h⟩)).1] at h'
      cases h'
    · exact heq
    · rw [(frozen hgt (Or.inr ⟨e', h'⟩)).1] at h
      cases h
  ends := exists_yields_none (start s strictness)
  error_iff e := by
    rw [walk_error_iff]
    simp only [yields_eq_getElem?, Option.map_eq_some_iff, List.mem_iff_getElem?]
    exact ⟨fun ⟨t, ⟨n, hn⟩, ht⟩ => ⟨n, t, hn, ht⟩, fun ⟨n, t, hn, ht⟩ => ⟨t, ⟨n, hn⟩, ht⟩⟩
  report n h hok := walk_ok_iff.mpr (map_item_steps h hok)

end DwarfUnits.Walker
