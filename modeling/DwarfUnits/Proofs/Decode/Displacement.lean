import DwarfUnits.Proofs.Decode.Locality

/-! Bytes put into a section: what stands after them is decoded as before, to the same values and the
same errors, with every place in the section so much further on. -/
namespace DwarfUnits

variable {α β : Type}

/-- The same failure, where a section has `k` more bytes before the place of a read. -/
def Error.displaced (id : SectionId) (k : ℕ) : Error → Error
  | outOfBounds other offset needed =>
    if other = id then outOfBounds other (offset + k) needed else outOfBounds other offset needed
  | e => e

theorem Error.displaced_outOfBounds {id : SectionId} {k offset needed : ℕ} :
    displaced id k (outOfBounds id offset needed) = outOfBounds id (offset + k) needed :=
  if_pos rfl

theorem Error.displaced_of_ne {id other : SectionId} {k offset needed : ℕ} (h : other ≠ id) :
    displaced id k (outOfBounds other offset needed) = outOfBounds other offset needed :=
  if_neg h

namespace Source

/-- Everything in `src` from `pos` on stands `k` bytes further on in `src'`. -/
structure Displaced (src : Source) (pos k : ℕ) (src' : Source) : Prop where
  inside : pos ≤ src.bytes.size
  id : src'.id = src.id
  order : src'.order = src.order
  size : src'.bytes.size = src.bytes.size + k
  holds : ∀ {start run}, pos ≤ start → src.Holds start run → src'.Holds (start + k) run

variable {src src' : Source} {pos k : ℕ} {run : List UInt8}

theorem Displaced.later (h : src.Displaced pos k src') {next : ℕ} (hle : pos ≤ next)
    (hnext : next ≤ src.bytes.size) : src.Displaced next k src' where
  inside := hnext
  id := h.id
  order := h.order
  size := h.size
  holds hstart hholds := h.holds (Nat.le_trans hle hstart) hholds

/-- The same section with more bytes before those from `pos` on. -/
def insert (src : Source) (pos : ℕ) (run : List UInt8) : Source :=
  { src with
    bytes := ⟨(src.bytes.data.toList.take pos ++ run ++ src.bytes.data.toList.drop pos).toArray⟩ }

theorem toList_insert :
    (src.insert pos run).bytes.data.toList =
      src.bytes.data.toList.take pos ++ run ++ src.bytes.data.toList.drop pos := rfl

theorem length_take (h : pos ≤ src.bytes.size) : (src.bytes.data.toList.take pos).length = pos := by
  rw [List.length_take, Array.length_toList, ByteArray.size_data]
  exact Nat.min_eq_left h

theorem holds_insert (h : pos ≤ src.bytes.size) (run : List UInt8) :
    (src.insert pos run).Holds pos run :=
  ⟨_, _, toList_insert, length_take h⟩

theorem Holds.insert_after {start : ℕ} {found : List UInt8} (h : src.Holds start found)
    (hle : start + found.length ≤ pos) : (src.insert pos run).Holds start found := by
  obtain ⟨before, after, hbytes, rfl⟩ := h
  have htake : src.bytes.data.toList.take pos =
      before ++ found ++ after.take (pos - (before.length + found.length)) := by
    rw [hbytes, List.take_append, List.length_append,
      List.take_of_length_le (by rw [List.length_append]; exact hle)]
  refine ⟨before, after.take (pos - (before.length + found.length)) ++ (run ++
    src.bytes.data.toList.drop pos), ?_, rfl⟩
  rw [toList_insert, htake]
  simp

theorem displaced_insert (h : pos ≤ src.bytes.size) (run : List UInt8) :
    src.Displaced pos run.length (src.insert pos run) where
  inside := h
  id := rfl
  order := rfl
  size := by
    rw [← ByteArray.size_data, ← Array.length_toList, toList_insert, ← ByteArray.size_data,
      ← Array.length_toList, List.length_append, List.length_append, Nat.add_right_comm,
      ← List.length_append, List.take_append_drop]
  holds := by
    rintro _ found hle ⟨before, after, hbytes, rfl⟩
    have hdrop : src.bytes.data.toList.drop pos = before.drop pos ++ found ++ after := by
      rw [hbytes, List.append_assoc, List.drop_append_of_le_length hle, List.append_assoc]
    refine ⟨src.bytes.data.toList.take pos ++ run ++ before.drop pos, after, ?_, ?_⟩
    · rw [toList_insert, hdrop]
      simp
    · rw [List.length_append, List.length_append, length_take h, List.length_drop]
      omega

end Source

/-- The same value, or the same failure, with every place in a section `k` bytes further on. -/
structure Outcome.Displaced (id : SectionId) (k : ℕ) (o o' : Outcome α) : Prop where
  result : o'.result = o.result.mapError (Error.displaced id k)
  position : o'.position = o.position + k

namespace Outcome.Displaced

variable {id : SectionId} {k : ℕ} {src src' : Source} {pos pos' : ℕ}

theorem ok {o o' : Outcome α} {a : α} (h : o.Displaced id k o') (ha : o.result = .ok a) :
    o'.result = .ok a := by
  rw [h.result, ha]
  rfl

theorem error {o o' : Outcome α} {e : Error} (h : o.Displaced id k o')
    (he : o.result = .error e) : o'.result = .error (e.displaced id k) := by
  rw [h.result, he]
  rfl

theorem bind {d d' : Decode α} {f f' : α → Decode β} (h : (d src pos).Displaced id k (d' src' pos'))
    (hf : ∀ a, (d src pos).result = .ok a →
      (f a src (d src pos).position).Displaced id k (f' a src' ((d src pos).position + k))) :
    ((d >>= f) src pos).Displaced id k ((d' >>= f') src' pos') := by
  cases hresult : (d src pos).result with
  | ok a =>
    obtain ⟨hrest, hend⟩ := hf a hresult
    rw [Decode.bind_ok hresult, Decode.bind_ok (h.ok hresult), h.position]
    exact ⟨hrest, hend⟩
  | error e =>
    rw [Decode.bind_error hresult, Decode.bind_error (h.error hresult)]
    exact ⟨rfl, h.position⟩

theorem map {d d' : Decode α} (f : α → β) (h : (d src pos).Displaced id k (d' src' pos')) :
    ((f <$> d) src pos).Displaced id k ((f <$> d') src' pos') :=
  h.bind fun _ _ => ⟨rfl, rfl⟩

end Outcome.Displaced

namespace Decode

variable {id : SectionId} {k : ℕ}

/-- Where everything from a position on stands `k` bytes further on, `d'` does from there what `d`
does from that position. -/
def Shifts (d : Decode α) (id : SectionId) (k : ℕ) (d' : Decode α) : Prop :=
  ∀ src pos src', src.id = id → src.Displaced pos k src' →
    (d src pos).Displaced id k (d' src' (pos + k))

namespace Shifts

variable {d d' : Decode α} {f f' : α → Decode β}

theorem pure (a : α) : (Pure.pure a : Decode α).Shifts id k (Pure.pure a) :=
  fun _ _ _ _ _ => ⟨rfl, rfl⟩

/-- A failure that tells of no place in the section. -/
theorem fail {e : Error} (h : e.displaced id k = e) :
    (Decode.fail e : Decode α).Shifts id k (Decode.fail e) :=
  fun _ _ _ _ _ => ⟨congrArg _ h.symm, rfl⟩

theorem emit (event event' : Event) : (Decode.emit event).Shifts id k (Decode.emit event') :=
  fun _ _ _ _ _ => ⟨rfl, rfl⟩

theorem bind_of {good : α → Prop} (h : d.Shifts id k d') (hd : d.Carries k d') (hg : d.Yields good)
    (hf : ∀ a, good a → (f a).Shifts id k (f' a)) : (d >>= f).Shifts id k (d' >>= f') := by
  intro src pos src' hid hsrc
  refine (h src pos src' hid hsrc).bind fun a ha => ?_
  obtain ⟨hle, hsize⟩ := ((hd src pos hsrc.inside).of_ok ha).bounds
  exact hf a (hg src pos a ha) src _ src' hid (hsrc.later hle hsize)

theorem bind (h : d.Shifts id k d') (hd : d.Carries k d') (hf : ∀ a, (f a).Shifts id k (f' a)) :
    (d >>= f).Shifts id k (d' >>= f') :=
  h.bind_of hd (fun _ _ _ _ => trivial) fun a (_ : True) => hf a

theorem map {f : α → β} (h : d.Shifts id k d') : (f <$> d).Shifts id k (f <$> d') :=
  fun src pos src' hid hsrc => (h src pos src' hid hsrc).map f

theorem discard (h : d.Shifts id k d') :
    (Functor.discard d).Shifts id k (Functor.discard d') := h.map

theorem ite {c : Prop} [Decidable c] {e e' : Decode α} (h : c → d.Shifts id k d')
    (h' : ¬c → e.Shifts id k e') : (if c then d else e).Shifts id k (if c then d' else e') := by
  split
  · exact h ‹_›
  · exact h' ‹_›

/-- A position that only events tell of may differ. -/
theorem position_bind {f f' : ℕ → Decode α} (h : ∀ p p', (f p).Shifts id k (f' p')) :
    (Decode.position >>= f).Shifts id k (Decode.position >>= f') :=
  fun src pos src' hid hsrc => h pos (pos + k) src pos src' hid hsrc

end Shifts

/-- What ends where bytes are put in is decoded as before. -/
theorem Carries.insert {d : Decode α} (h : d.Carries 0 d) {src : Source} {pos mid : ℕ} {a : α}
    (hpos : pos ≤ src.bytes.size) (ha : (d src pos).result = .ok a)
    (hmid : (d src pos).position = mid) (run : List UInt8) :
    mid ≤ src.bytes.size ∧ (d (src.insert mid run) pos).result = .ok a ∧
      (d (src.insert mid run) pos).position = mid := by
  obtain ⟨taken, hholds, hnext, hreads⟩ := (h src pos hpos).of_ok ha
  rw [hmid] at hnext
  subst hnext
  exact ⟨hholds.le_size, hreads _ rfl (hholds.insert_after (Nat.le_refl _))⟩

theorem take_shifts (n : ℕ) : (take n).Shifts id k (take n) := by
  rintro src pos src' rfl hsrc
  have hsize := hsrc.size
  by_cases hn : pos + n ≤ src.bytes.size
  · obtain ⟨hholds, hlen⟩ := Source.holds_slice hn
    obtain ⟨hresult, hnext⟩ := take_reads hlen hholds
    obtain ⟨hresult', hnext'⟩ := take_reads hlen (hsrc.holds (Nat.le_refl pos) hholds)
    refine ⟨by rw [hresult, hresult']; rfl, ?_⟩
    rw [hnext, hnext']
    omega
  · have hn' : ¬pos + k + n ≤ src'.bytes.size := by omega
    unfold take
    rw [if_neg hn, if_neg hn', hsrc.id]
    exact ⟨congrArg _ Error.displaced_outOfBounds.symm, rfl⟩

theorem skip_shifts (n : ℕ) : (skip n).Shifts id k (skip n) := by
  rw [skip_eq_map]
  exact (take_shifts n).map

theorem takeThrough_shifts (p : UInt8 → Bool) :
    (takeThrough p).Shifts id k (takeThrough p) := by
  rintro src pos src' rfl hsrc
  have hsize := hsrc.size
  have hinside := hsrc.inside
  cases hi : src.indexFrom p pos with
  | some i =>
    obtain ⟨run, last, hholds, -, hrun, hlast⟩ := Source.exists_run_of_indexFrom hi
    obtain ⟨hresult, hnext⟩ := takeThrough_reads hrun hlast hholds
    obtain ⟨hresult', hnext'⟩ :=
      takeThrough_reads hrun hlast (hsrc.holds (Nat.le_refl pos) hholds)
    refine ⟨by rw [hresult, hresult']; rfl, ?_⟩
    rw [hnext, hnext']
    omega
  | none =>
    -- One byte more than there are is missing, and as many are left in both.
    obtain ⟨run, hholds, hend, hrun⟩ := Source.exists_run_of_indexFrom_eq_none hinside hi
    have hi' : src'.indexFrom p (pos + k) = none :=
      (hsrc.holds (Nat.le_refl pos) hholds).indexFrom_eq_none hrun (by omega)
    have hneeded : src'.bytes.size - (pos + k) = src.bytes.size - pos := by omega
    unfold takeThrough
    rw [hi, hi', hsrc.id, hneeded]
    exact ⟨congrArg _ Error.displaced_outOfBounds.symm, rfl⟩

theorem word_shifts (n : ℕ) : (word n).Shifts id k (word n) := by
  intro src pos src' hid hsrc
  unfold word
  rw [hsrc.order]
  exact (take_shifts n src pos src' hid hsrc).map src.order.value

theorem u32_shifts : u32.Shifts id k u32 := (word_shifts 4).map

theorem u64_shifts : u64.Shifts id k u64 := (word_shifts 8).map

theorem uleb128_shifts : uleb128.Shifts id k uleb128 := (takeThrough_shifts _).map

theorem cstring_shifts : cstring.Shifts id k cstring := (takeThrough_shifts _).map

theorem offset_shifts (format : Format) : (offset format).Shifts id k (offset format) :=
  (word_shifts _).map

/-- What is decoded elsewhere is decoded alike, and its failures are of places there. -/
theorem decodeAt_shifts {s : Sections} {other : SectionId} {offset : ℕ} {d : Decode α}
    (hne : other ≠ id) (hd : ∀ src : Source, ∃ least, d.Advances src least src.Overrun) :
    (s.decodeAt other offset d).Shifts id k (s.decodeAt other offset d) := by
  intro src pos src' _ _
  unfold Sections.decodeAt elsewhere Source.start
  cases hsource : s.source other with
  | error e =>
    unfold Sections.source at hsource
    split at hsource <;> cases hsource
    exact ⟨rfl, rfl⟩
  | ok table =>
    have hid : table.id = other := by
      unfold Sections.source at hsource
      split at hsource <;> cases hsource
      rfl
    dsimp only
    by_cases hoffset : offset ≤ table.bytes.size
    · rw [if_pos hoffset]
      obtain ⟨least, hadvances⟩ := hd table
      refine ⟨?_, rfl⟩
      cases hresult : (d table offset).result with
      | ok a => rfl
      | error e =>
        obtain ⟨start, needed, rfl, -⟩ := (hadvances offset hoffset).of_error hresult
        exact congrArg _ (Error.displaced_of_ne (hid ▸ hne)).symm
    · rw [if_neg hoffset]
      exact ⟨congrArg _ (Error.displaced_of_ne (hid ▸ hne)).symm, rfl⟩

end Decode
end DwarfUnits
