import DwarfUnits.Sections

/-! Sequencing of decoders: what a sequence leaves, from what its two parts leave. -/
namespace DwarfUnits

variable {α β : Type}

namespace Outcome

/-- A result satisfies `ok` with the position after it, or an error `err` with the position kept. -/
def Meets (o : Outcome α) (ok : α → Nat → Prop) (err : Error → Nat → Prop) : Prop :=
  match o.result with
  | .ok a => ok a o.position
  | .error e => err e o.position

theorem Meets.mono {o : Outcome α} {ok ok' : α → Nat → Prop} {err err' : Error → Nat → Prop}
    (h : o.Meets ok err) (hok : ∀ a next, ok a next → ok' a next)
    (herr : ∀ e next, err e next → err' e next) : o.Meets ok' err' := by
  unfold Meets at *
  split at h
  · exact hok _ _ h
  · exact herr _ _ h

theorem Meets.imp {o : Outcome α} {ok ok' : α → Nat → Prop} {err : Error → Nat → Prop}
    (h : o.Meets ok err) (hok : ∀ a next, ok a next → ok' a next) : o.Meets ok' err :=
  h.mono hok fun _ _ he => he

/-- Where there is a value, it satisfies `ok` with the position after it. -/
abbrev Gives (o : Outcome α) (ok : α → Nat → Prop) : Prop := o.Meets ok fun _ _ => True

theorem Meets.gives {o : Outcome α} {ok : α → Nat → Prop} {err : Error → Nat → Prop}
    (h : o.Meets ok err) : o.Gives ok :=
  h.mono (fun _ _ ha => ha) fun _ _ _ => trivial

theorem Meets.of_ok {o : Outcome α} {ok : α → Nat → Prop} {err : Error → Nat → Prop} {a : α}
    (h : o.Meets ok err) (ha : o.result = .ok a) : ok a o.position := by
  simpa only [Meets, ha] using h

theorem Meets.of_error {o : Outcome α} {ok : α → Nat → Prop} {err : Error → Nat → Prop}
    {e : Error} (h : o.Meets ok err) (he : o.result = .error e) : err e o.position := by
  simpa only [Meets, he] using h

theorem Meets.self (o : Outcome α) :
    o.Meets (fun a _ => o.result = .ok a) (fun e _ => o.result = .error e) := by
  unfold Meets
  split <;> assumption

theorem Gives.self (o : Outcome α) :
    o.Gives fun a next => o.result = .ok a ∧ next = o.position := by
  unfold Gives Meets
  split
  · rename_i a ha
    exact ⟨ha, rfl⟩
  · trivial

theorem Meets.and {o : Outcome α} {ok ok' : α → Nat → Prop} {err err' : Error → Nat → Prop}
    (h : o.Meets ok err) (h' : o.Meets ok' err') :
    o.Meets (fun a next => ok a next ∧ ok' a next) (fun e next => err e next ∧ err' e next) := by
  unfold Meets at *
  split at h <;> simp_all

theorem Meets.gives_self {o : Outcome α} {ok : α → Nat → Prop} {err : Error → Nat → Prop}
    (h : o.Meets ok err) : o.Gives fun a next => ok a next ∧ o.result = .ok a ∧ next = o.position :=
  (h.and (Gives.self o)).gives

end Outcome

namespace Decode

theorem pure_apply (a : α) (src : Source) (pos : Nat) :
    (pure a : Decode α) src pos = ⟨.ok a, pos, []⟩ := rfl

theorem bind_ok {d : Decode α} {f : α → Decode β} {src : Source} {pos : Nat} {a : α}
    (h : (d src pos).result = .ok a) :
    (d >>= f) src pos = ⟨(f a src (d src pos).position).result,
      (f a src (d src pos).position).position,
      (d src pos).events ++ (f a src (d src pos).position).events⟩ := by
  change Decode.bind d f src pos = _
  unfold Decode.bind
  split <;> simp_all

theorem bind_error {d : Decode α} {f : α → Decode β} {src : Source} {pos : Nat} {e : Error}
    (h : (d src pos).result = .error e) :
    (d >>= f) src pos = ⟨.error e, (d src pos).position, (d src pos).events⟩ := by
  change Decode.bind d f src pos = _
  unfold Decode.bind
  split <;> simp_all

theorem map_eq_bind (f : α → β) (d : Decode α) : f <$> d = d >>= fun a => pure (f a) := rfl

instance : LawfulMonad Decode := by
  refine LawfulMonad.mk' Decode (fun d => ?_) (fun a f => rfl) (fun d f g => ?_)
  · funext src pos
    change Decode.bind d Decode.pure src pos = d src pos
    unfold Decode.bind
    obtain ⟨_ | a, next, events⟩ := d src pos
    · rfl
    · simp [Decode.pure]
  · funext src pos
    change Decode.bind (Decode.bind d f) g src pos =
      Decode.bind d (fun a => Decode.bind (f a) g) src pos
    unfold Decode.bind
    obtain ⟨_ | a, mid, events⟩ := d src pos
    · rfl
    dsimp only
    obtain ⟨_ | b, next, events'⟩ := f a src mid
    · rfl
    · simp

/-- The result of a sequence, without its events. -/
theorem bind_result (d : Decode α) (f : α → Decode β) (src : Source) (pos : Nat) :
    ((d >>= f) src pos).result =
      (d src pos).result >>= fun a => (f a src (d src pos).position).result := by
  cases h : (d src pos).result with
  | ok a => rw [bind_ok h]; rfl
  | error e => rw [bind_error h]; rfl

theorem map_result (f : α → β) (d : Decode α) (src : Source) (pos : Nat) :
    ((f <$> d) src pos).result = f <$> (d src pos).result := by
  rw [map_eq_bind]
  cases h : (d src pos).result with
  | ok a => rw [bind_ok h]; rfl
  | error e => rw [bind_error h]; rfl

theorem map_position (f : α → β) (d : Decode α) (src : Source) (pos : Nat) :
    ((f <$> d) src pos).position = (d src pos).position := by
  rw [map_eq_bind]
  cases h : (d src pos).result with
  | ok a => rw [bind_ok h]; rfl
  | error e => rw [bind_error h]

/-- Passing over bytes is taking them and keeping none. -/
theorem skip_eq_map (n : Nat) : skip n = (fun _ => ()) <$> take n := by
  funext src pos
  by_cases hn : pos + n ≤ src.bytes.size
  · have htake : (take n src pos).result = .ok (src.slice pos n) := by rw [take, if_pos hn]
    rw [map_eq_bind, bind_ok htake, skip, take, if_pos hn, if_pos hn]
    rfl
  · have htake : (take n src pos).result = .error (.outOfBounds src.id pos n) := by
      rw [take, if_neg hn]
    rw [map_eq_bind, bind_error htake, skip, take, if_neg hn, if_neg hn]

theorem exists_of_bind_ok {d : Decode α} {f : α → Decode β} {src : Source} {pos : Nat} {b : β}
    (h : ((d >>= f) src pos).result = .ok b) :
    ∃ a, (d src pos).result = .ok a ∧ (f a src (d src pos).position).result = .ok b := by
  cases hd : (d src pos).result with
  | ok a => exact ⟨a, rfl, by rwa [bind_ok hd] at h⟩
  | error e =>
    rw [bind_error hd] at h
    cases h

theorem position_bind (f : Nat → Decode β) (src : Source) (pos : Nat) :
    (position >>= f) src pos = f pos src pos := rfl

/-- Two sequences do the same where both of their parts do. -/
theorem bind_congr_at {d d' : Decode α} {f f' : α → Decode β} {src : Source} {pos : Nat}
    (h : d' src pos = d src pos) (hf : ∀ a, (d src pos).result = .ok a →
      f' a src (d src pos).position = f a src (d src pos).position) :
    (d' >>= f') src pos = (d >>= f) src pos := by
  cases hresult : (d src pos).result with
  | ok a => rw [bind_ok hresult, bind_ok (h ▸ hresult), h, hf a hresult]
  | error e => rw [bind_error hresult, bind_error (h ▸ hresult), h]

/-- A check after the rest of a sequence is a check after the whole. -/
theorem bind_result_check {d : Decode α} {f g : α → Decode β} {check : β → Except Error β}
    {src : Source} {pos : Nat}
    (h : ∀ a next, (f a src next).result = (g a src next).result >>= check) :
    ((d >>= f) src pos).result = ((d >>= g) src pos).result >>= check := by
  rw [bind_result, bind_result]
  cases (d src pos).result with
  | ok a => exact h a _
  | error e => rfl

/-- Decoding in another section and running there have one result. -/
theorem decodeAt_result (s : Sections) (id : SectionId) (offset : Nat) (d : Decode α)
    (src : Source) (pos : Nat) : (s.decodeAt id offset d src pos).result = s.run id offset d := by
  unfold Sections.decodeAt Sections.run elsewhere
  cases s.source id with
  | error e => rfl
  | ok other => cases h : other.start offset <;> simp [h, Bind.bind, Except.bind]

theorem run_check {s : Sections} {id : SectionId} {offset : Nat} {d : Decode β} {d' : Decode α}
    {check : α → Except Error β} (h : ∀ src pos, (d src pos).result = (d' src pos).result >>= check) :
    s.run id offset d = s.run id offset d' >>= check := by
  unfold Sections.run
  simp only [h, bind_assoc]

/-- Every value that `d` yields anywhere satisfies `good`. -/
def Yields (d : Decode α) (good : α → Prop) : Prop :=
  ∀ src pos a, (d src pos).result = .ok a → good a

namespace Yields

variable {d d' : Decode α} {f : α → Decode β} {mid : α → Prop} {good : β → Prop}

theorem pure {a : β} (h : good a) : (Pure.pure a : Decode β).Yields good := by
  rintro src pos _ ⟨⟩
  exact h

theorem gives (h : d.Yields mid) (src : Source) (pos : Nat) : (d src pos).Gives fun a _ => mid a :=
  (Outcome.Gives.self _).imp fun a _ hresult => h src pos a hresult.1

theorem fail {e : Error} : (Decode.fail e : Decode β).Yields good := by
  rintro src pos _ ⟨⟩

theorem bind_of (hd : d.Yields mid) (h : ∀ a, mid a → (f a).Yields good) :
    (d >>= f).Yields good := by
  intro src pos b hb
  rw [bind_result] at hb
  cases hresult : (d src pos).result with
  | ok a =>
    rw [hresult] at hb
    exact h a (hd src pos a hresult) _ _ b hb
  | error e =>
    rw [hresult] at hb
    cases hb

theorem bind (h : ∀ a, (f a).Yields good) : (d >>= f).Yields good :=
  bind_of (fun _ _ _ _ => trivial) fun a (_ : True) => h a

theorem map_of {f : α → β} (hd : d.Yields mid) (h : ∀ a, mid a → good (f a)) :
    (f <$> d).Yields good :=
  hd.bind_of fun a ha => pure (h a ha)

theorem map {f : α → β} (h : ∀ a, good (f a)) : (f <$> d).Yields good :=
  bind fun a => pure (h a)

theorem ite {c : Prop} [Decidable c] {d d' : Decode β} (h : d.Yields good) (h' : d'.Yields good) :
    (if c then d else d').Yields good := by
  split
  · exact h
  · exact h'

theorem decodeAt {s : Sections} {id : SectionId} {offset : Nat} (h : d.Yields mid) :
    (s.decodeAt id offset d).Yields mid := by
  intro src pos a ha
  unfold Sections.decodeAt elsewhere at ha
  split at ha
  · cases ha
  · split at ha
    · cases ha
    · exact h _ _ a ha

end Yields

/-- What `collect` does with one item of its step. -/
def collectRest (step : Decode (Option α)) : Option α → Decode (List α)
  | none => pure []
  | some a => (a :: ·) <$> collect step

/-- Where a step moves on inside the section, `collect` is that step and then the rest. -/
theorem collect_apply {step : Decode (Option α)} {src : Source} {pos : Nat}
    (h : (step src pos).Meets (fun _ next => pos < next ∧ next ≤ src.bytes.size)
      (fun _ _ => True)) :
    collect step src pos = (step >>= collectRest step) src pos := by
  rw [collect]
  split
  · rename_i e next events he
    have herr : (step src pos).result = .error e := by rw [he]
    rw [bind_error herr, he]
  · rename_i next events he
    have hnone : (step src pos).result = .ok none := by rw [he]
    rw [bind_ok hnone, he]
    simp [collectRest, pure_apply]
  · rename_i a next events he
    have hnext : pos < next ∧ next ≤ src.bytes.size := by
      rw [he] at h
      exact h
    have hsome : (step src pos).result = .ok (some a) := by rw [he]
    rw [bind_ok hsome, he, if_pos hnext]
    simp only [collectRest, map_eq_bind]
    cases hr : (collect step src next).result with
    | ok rest => simp [bind_ok hr, pure_apply, Functor.map, Except.map]
    | error e => simp [bind_error hr, Functor.map, Except.map]

end Decode

namespace Outcome.Meets

theorem bind {d : Decode α} {f : α → Decode β} {src : Source} {pos : Nat}
    {mid : α → Nat → Prop} {ok : β → Nat → Prop} {err : Error → Nat → Prop}
    (h : (d src pos).Meets mid err) (hf : ∀ a next, mid a next → (f a src next).Meets ok err) :
    ((d >>= f) src pos).Meets ok err := by
  cases hd : (d src pos).result with
  | ok a =>
    rw [Decode.bind_ok hd]
    exact hf _ _ (h.of_ok hd)
  | error e =>
    rw [Decode.bind_error hd]
    exact h.of_error hd

theorem map {d : Decode α} {f : α → β} {src : Source} {pos : Nat} {ok : β → Nat → Prop}
    {err : Error → Nat → Prop} (h : (d src pos).Meets (fun a next => ok (f a) next) err) :
    ((f <$> d) src pos).Meets ok err :=
  bind h (fun _ _ ha => ha)

theorem ite {c : Prop} [Decidable c] {d d' : Decode α} {src : Source} {pos : Nat}
    {ok : α → Nat → Prop} {err : Error → Nat → Prop} (h : c → (d src pos).Meets ok err)
    (h' : ¬c → (d' src pos).Meets ok err) : ((if c then d else d') src pos).Meets ok err := by
  by_cases hc : c
  · rw [if_pos hc]
    exact h hc
  · rw [if_neg hc]
    exact h' hc

/-- A choice of decoder before a common rest, which stands in both branches. -/
theorem ite_bind {c : Prop} [Decidable c] {d d' : Decode α} {f : α → Decode β} {src : Source}
    {pos : Nat} {mid : α → Nat → Prop} {ok : β → Nat → Prop} {err : Error → Nat → Prop}
    (h : ((if c then d else d') src pos).Meets mid err)
    (hf : ∀ a next, mid a next → (f a src next).Meets ok err) :
    ((if c then d >>= f else d' >>= f) src pos).Meets ok err := by
  split at h
  · rw [if_pos ‹c›]
    exact h.bind hf
  · rw [if_neg ‹¬c›]
    exact h.bind hf

theorem emit_bind {event : Event} {f : Unit → Decode α} {src : Source} {pos : Nat}
    {ok : α → Nat → Prop} {err : Error → Nat → Prop} (h : (f () src pos).Meets ok err) :
    ((Decode.emit event >>= f) src pos).Meets ok err := h

end Outcome.Meets
end DwarfUnits
