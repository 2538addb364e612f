import DwarfUnits.Proofs.Decode.Bounds
import DwarfUnits.Proofs.Decode.Reads

/-! Decoders see only the bytes that they take: what a run of bytes is decoded to does not depend on
what stands before or after it. -/
namespace DwarfUnits

variable {α β : Type}

namespace Source

variable {src src' : Source} {pos k n : ℕ} {run : List UInt8}

theorem holds_nil (h : pos ≤ src.bytes.size) : src.Holds pos [] := by
  refine ⟨src.bytes.data.toList.take pos, src.bytes.data.toList.drop pos, ?_, ?_⟩
  · rw [List.append_nil, List.take_append_drop]
  · rw [List.length_take, Array.length_toList, ByteArray.size_data]
    exact Nat.min_eq_left h

theorem holds_slice (h : pos + n ≤ src.bytes.size) :
    src.Holds pos (src.slice pos n) ∧ (src.slice pos n).length = n := by
  have hslice : src.slice pos n = (src.bytes.data.toList.drop pos).take n := by
    unfold slice
    rw [ByteArray.data_extract, Array.toList_extract, List.extract_eq_take_drop,
      Nat.add_sub_cancel_left]
  have hlen : src.bytes.data.toList.length = src.bytes.size := by
    rw [Array.length_toList, ByteArray.size_data]
  rw [hslice]
  constructor
  · refine ⟨src.bytes.data.toList.take pos, src.bytes.data.toList.drop (pos + n), ?_, ?_⟩
    · rw [List.append_assoc, ← List.drop_drop, List.take_append_drop, List.take_append_drop]
    · rw [List.length_take]
      omega
  · rw [List.length_take, List.length_drop]
    omega

theorem Holds.append {rest : List UInt8} (h : src.Holds pos run)
    (h' : src.Holds (pos + run.length) rest) : src.Holds pos (run ++ rest) := by
  obtain ⟨before, after, hbytes, hlen⟩ := h
  obtain ⟨before', after', hbytes', hlen'⟩ := h'
  have hsplit : before' = before ++ run ∧ rest ++ after' = after := by
    refine List.append_inj ?_ ?_
    · rw [← List.append_assoc, ← hbytes', hbytes]
    · rw [hlen', List.length_append, hlen]
  refine ⟨before, after', ?_, hlen⟩
  rw [hbytes, ← hsplit.2]
  simp

theorem holds_getElem (h : pos < src.bytes.size) : src.Holds pos [src.bytes[pos]] := by
  have hslice : src.Holds pos (src.slice pos 1) ∧ (src.slice pos 1).length = 1 := holds_slice h
  obtain ⟨hholds, hlen⟩ := hslice
  obtain ⟨b, hb⟩ := List.length_eq_one_iff.mp hlen
  rw [hb] at hholds
  obtain ⟨_, hget⟩ := hholds.getElem_eq
  rw [hget]
  exact hholds

/-- A byte that is found ends a run in which no other byte is one to find. -/
theorem exists_run_of_indexFrom {p : UInt8 → Bool} {i : ℕ} (h : src.indexFrom p pos = some i) :
    ∃ run last, src.Holds pos (run ++ [last]) ∧ i = pos + run.length ∧
      (∀ b ∈ run, p b = false) ∧ p last = true := by
  fun_induction indexFrom src p pos with
  | case1 pos hpos hp =>
    obtain rfl := Option.some.inj h
    exact ⟨[], _, holds_getElem hpos, rfl, by simp, hp⟩
  | case2 pos hpos hp ih =>
    obtain ⟨run, last, hholds, hi, hrun, hlast⟩ := ih h
    refine ⟨src.bytes[pos] :: run, last, (holds_getElem hpos).append hholds, ?_, ?_, hlast⟩
    · rw [hi, List.length_cons]
      omega
    · rw [List.forall_mem_cons]
      exact ⟨by simpa using hp, hrun⟩
  | case3 pos hpos => cases h

/-- Where nothing is found, no byte up to the end of the section is one to find. -/
theorem exists_run_of_indexFrom_eq_none {p : UInt8 → Bool} (hpos : pos ≤ src.bytes.size)
    (h : src.indexFrom p pos = none) :
    ∃ run, src.Holds pos run ∧ pos + run.length = src.bytes.size ∧ ∀ b ∈ run, p b = false := by
  fun_induction indexFrom src p pos with
  | case1 pos hlt hp => cases h
  | case2 pos hlt hp ih =>
    obtain ⟨run, hholds, hend, hrun⟩ := ih hlt h
    refine ⟨src.bytes[pos] :: run, (holds_getElem hlt).append hholds, ?_, ?_⟩
    · rw [List.length_cons]
      omega
    · rw [List.forall_mem_cons]
      exact ⟨by simpa using hp, hrun⟩
  | case3 pos hge => exact ⟨[], holds_nil hpos, by rw [List.length_nil]; omega, by simp⟩

/-- All bytes of `src` stand in `src'`, `k` further on. -/
def Within (src : Source) (k : ℕ) (src' : Source) : Prop :=
  src'.order = src.order ∧ src'.Holds k src.bytes.data.toList

theorem Holds.within (h : src.Holds pos run) (hw : src.Within k src') :
    src'.Holds (pos + k) run := by
  obtain ⟨before, after, hbytes, hlen⟩ := h
  obtain ⟨-, hall⟩ := hw
  rw [hbytes, List.append_assoc] at hall
  rw [← hlen, Nat.add_comm]
  exact hall.right.left

theorem Within.le_size (h : src.Within k src') : k + src.bytes.size ≤ src'.bytes.size := by
  have hle := h.2.le_size
  rwa [Array.length_toList, ByteArray.size_data] at hle

theorem within_append (before after : ByteArray) (horder : src'.order = src.order)
    (hbytes : src'.bytes = before ++ src.bytes ++ after) : src.Within before.size src' := by
  refine ⟨horder, before.data.toList, after.data.toList, ?_, ?_⟩
  · rw [hbytes, ByteArray.data_append, ByteArray.data_append, Array.toList_append,
      Array.toList_append]
  · rw [Array.length_toList, ByteArray.size_data]

/-- The same section with more bytes after it. -/
def extend (src : Source) (more : ByteArray) : Source := { src with bytes := src.bytes ++ more }

theorem within_extend (src : Source) (more : ByteArray) : src.Within 0 (src.extend more) :=
  within_append .empty more rfl (by rw [ByteArray.empty_append]; rfl)

end Source

namespace Decode

/-- What `d` takes from `pos` to `next`, it takes for `a` wherever it stands `k` further on. -/
def Repeats (d : Decode α) (src : Source) (pos k next : ℕ) (a : α) : Prop :=
  ∃ run, src.Holds pos run ∧ next = pos + run.length ∧
    ∀ src', src'.order = src.order → d.Reads src' (pos + k) run a

namespace Repeats

variable {d d' : Decode α} {f : α → Decode β} {src src' : Source} {pos k mid next : ℕ} {a : α}
  {b : β}

theorem bounds (h : d.Repeats src pos k next a) : pos ≤ next ∧ next ≤ src.bytes.size := by
  obtain ⟨run, hholds, rfl, -⟩ := h
  exact ⟨Nat.le_add_right _ _, hholds.le_size⟩

theorem within (h : d.Repeats src pos k next a) (hw : src.Within k src') :
    (d src' (pos + k)).result = .ok a ∧ (d src' (pos + k)).position = next + k := by
  obtain ⟨run, hholds, rfl, hreads⟩ := h
  obtain ⟨hresult, hposition⟩ := hreads src' hw.1 (hholds.within hw)
  refine ⟨hresult, ?_⟩
  rw [hposition]
  omega

/-- A decoder that takes nothing and yields `a` where it is. -/
theorem of_nil (hpos : pos ≤ src.bytes.size) (h : ∀ src', d.Reads src' (pos + k) [] a) :
    d.Repeats src pos k pos a :=
  ⟨[], Source.holds_nil hpos, rfl, fun src' _ => h src'⟩

theorem pure (hpos : pos ≤ src.bytes.size) (a : α) :
    (Pure.pure a : Decode α).Repeats src pos k pos a :=
  of_nil hpos fun _ => .pure a

theorem bind (h : d.Repeats src pos k mid a) (hf : (f a).Repeats src mid k next b) :
    (d >>= f).Repeats src pos k next b := by
  obtain ⟨run, hholds, rfl, hreads⟩ := h
  obtain ⟨rest, hholds', rfl, hreads'⟩ := hf
  refine ⟨run ++ rest, hholds.append hholds', ?_, ?_⟩
  · rw [List.length_append, Nat.add_assoc]
  · intro src' horder
    have hrest := hreads' src' horder
    rw [Nat.add_right_comm] at hrest
    exact (hreads src' horder).bind hrest

theorem map {f : α → β} (h : d.Repeats src pos k next a) :
    (f <$> d).Repeats src pos k next (f a) :=
  h.bind (.pure h.bounds.2 (f a))

theorem emit (hpos : pos ≤ src.bytes.size) (event : Event) :
    (Decode.emit event).Repeats src pos k pos () :=
  of_nil hpos fun _ => .emit event

theorem position (hpos : pos ≤ src.bytes.size) :
    Decode.position.Repeats src pos k pos (pos + k) :=
  of_nil hpos fun _ => .position

end Repeats

/-- Wherever `d` yields a value, `d'` yields it from the same bytes `k` further on. -/
def Carries (d : Decode α) (k : ℕ) (d' : Decode α) : Prop :=
  ∀ src pos, pos ≤ src.bytes.size →
    (d src pos).Gives fun a next => d'.Repeats src pos k next a

namespace Carries

variable {d d' : Decode α} {f f' : α → Decode β} {k : ℕ}

theorem pure (a : α) : (Pure.pure a : Decode α).Carries k (Pure.pure a) :=
  fun _ _ hpos => Repeats.pure hpos a

theorem fail {e : Error} : (Decode.fail e).Carries k d' := fun _ _ _ => trivial

theorem emit (event event' : Event) : (Decode.emit event).Carries k (Decode.emit event') :=
  fun _ _ hpos => Repeats.emit hpos event'

theorem position : Decode.position.Carries 0 Decode.position :=
  fun _ _ hpos => Repeats.position hpos

theorem bind_of {good : α → Prop} (h : d.Carries k d') (hg : d.Yields good)
    (hf : ∀ a, good a → (f a).Carries k (f' a)) :
    (d >>= f).Carries k (d' >>= f') := by
  intro src pos hpos
  refine (h src pos hpos).gives_self.bind fun a mid ⟨hmid, hresult, _⟩ => ?_
  have ha : good a := hg src pos a hresult
  exact (hf a ha src mid hmid.bounds.2).imp fun b next hnext => hmid.bind hnext

theorem bind (h : d.Carries k d') (hf : ∀ a, (f a).Carries k (f' a)) :
    (d >>= f).Carries k (d' >>= f') :=
  h.bind_of (fun _ _ _ _ => trivial) fun a _ => hf a

theorem map {f : α → β} (h : d.Carries k d') : (f <$> d).Carries k (f <$> d') :=
  h.bind fun a => pure (f a)

theorem discard (h : d.Carries k d') :
    (Functor.discard d).Carries k (Functor.discard d') := h.map

theorem ite {c : Prop} [Decidable c] {e e' : Decode α} (h : c → d.Carries k d')
    (h' : ¬c → e.Carries k e') :
    (if c then d else e).Carries k (if c then d' else e') := by
  split
  · exact h ‹_›
  · exact h' ‹_›

/-- A choice of decoder before a common rest, which stands in both branches. -/
theorem ite_bind {c : Prop} [Decidable c] {e e' : Decode α}
    (h : (if c then d else e).Carries k (if c then d' else e'))
    (hf : ∀ a, (f a).Carries k (f' a)) :
    (if c then d >>= f else e >>= f).Carries k (if c then d' >>= f' else e' >>= f') := by
  split at h
  · rw [if_pos ‹c›, if_pos ‹c›]
    exact h.bind hf
  · rw [if_neg ‹¬c›, if_neg ‹¬c›]
    exact h.bind hf

/-- A position that only events tell of may differ. -/
theorem position_bind {f f' : ℕ → Decode α} (h : ∀ p p', (f p).Carries k (f' p')) :
    (Decode.position >>= f).Carries k (Decode.position >>= f') := by
  intro src pos hpos
  rw [Decode.position_bind]
  exact (h pos (pos + k) src pos hpos).imp fun a next hnext => (Repeats.position hpos).bind hnext

end Carries

variable {k : ℕ}

theorem take_carries (n : ℕ) : (take n).Carries k (take n) := by
  intro src pos hpos
  unfold take
  split
  · rename_i hn
    obtain ⟨hholds, hlen⟩ := Source.holds_slice hn
    exact ⟨src.slice pos n, hholds, by rw [hlen], fun src' _ => take_reads hlen⟩
  · trivial

theorem skip_carries (n : ℕ) : (skip n).Carries k (skip n) := by
  rw [skip_eq_map]
  exact (take_carries n).map

theorem takeThrough_carries (p : UInt8 → Bool) :
    (takeThrough p).Carries k (takeThrough p) := by
  intro src pos hpos
  cases hi : src.indexFrom p pos with
  | none => simp only [Outcome.Meets, takeThrough, hi]
  | some i =>
    obtain ⟨run, last, hholds, rfl, hrun, hlast⟩ := Source.exists_run_of_indexFrom hi
    have hreads : ∀ src' pos', (takeThrough p).Reads src' pos' (run ++ [last]) (run ++ [last]) :=
      fun _ _ => takeThrough_reads hrun hlast
    obtain ⟨hresult, hnext⟩ := hreads src pos hholds
    unfold Outcome.Gives Outcome.Meets
    rw [hresult]
    exact ⟨run ++ [last], hholds, hnext, fun src' _ => hreads src' _⟩

theorem word_carries (n : ℕ) : (word n).Carries k (word n) := by
  intro src pos hpos
  refine Outcome.Meets.map ((take_carries (k := k) n src pos hpos).imp ?_)
  rintro a next ⟨run, hholds, hnext, hreads⟩
  refine ⟨run, hholds, hnext, fun src' horder => ?_⟩
  have hword : (word n).Reads src' (pos + k) run _ := (hreads src' horder).map rfl
  rwa [horder] at hword

theorem u8_carries : u8.Carries k u8 := (word_carries 1).map

theorem i8_carries : i8.Carries k i8 := u8_carries.map

theorem u16_carries : u16.Carries k u16 := (word_carries 2).map

theorem u32_carries : u32.Carries k u32 := (word_carries 4).map

theorem u64_carries : u64.Carries k u64 := (word_carries 8).map

theorem uleb128_carries : uleb128.Carries k uleb128 := (takeThrough_carries _).map

theorem sleb128_carries : sleb128.Carries k sleb128 := (takeThrough_carries _).map

theorem cstring_carries : cstring.Carries k cstring := (takeThrough_carries _).map

theorem offset_carries (format : Format) : (offset format).Carries k (offset format) :=
  (word_carries _).map

theorem initialLength_carries : initialLength.Carries k initialLength :=
  u32_carries.bind fun _ => .ite (fun _ => u64_carries.bind fun _ => .pure _) fun _ => .pure _

theorem collect_carries {step step' : Decode (Option α)} (h : step.Carries k step')
    (hmoves : ∀ src, step.Advances src 1 fun _ => True) :
    (collect step).Carries k (collect step') := by
  intro src pos hpos
  -- Every item leaves less of the section for the rest.
  induction hn : src.bytes.size - pos using Nat.strongRecOn generalizing pos with
  | ind n ih =>
    rw [collect_apply (hmoves src pos hpos).gives]
    refine ((hmoves src pos hpos).and (h src pos hpos)).gives.bind ?_
    rintro item mid ⟨⟨hmid, hsize⟩, run, hholds, rfl, hreads⟩
    have hrun : run ≠ [] := by
      rintro rfl
      simp at hmid
    suffices hrest : (collectRest step item src (pos + run.length)).Gives
        fun items next => (collectRest step' item).Repeats src (pos + run.length) k next items by
      refine hrest.imp ?_
      rintro items next ⟨rest, hholds', rfl, hreads'⟩
      refine ⟨run ++ rest, hholds.append hholds', ?_, fun src' horder => ?_⟩
      · rw [List.length_append, Nat.add_assoc]
      · have htail := hreads' src' horder
        rw [Nat.add_right_comm] at htail
        exact collect_reads_of hrun (hreads src' horder) htail
    cases item with
    | none => exact Repeats.pure hsize []
    | some a =>
      have hrest := ih (src.bytes.size - (pos + run.length)) (by omega) _ hsize rfl
      exact .map (hrest.imp fun _ _ hnext => hnext.map)

/-- Every error of `d` but that of a read past the end stands, whatever follows the section. -/
def Refuses (d : Decode α) : Prop :=
  ∀ src more pos, pos ≤ src.bytes.size →
    (d src pos).Meets (fun _ _ => True)
      (fun e _ => src.Overrun e ∨ (d (src.extend more) pos).result = .error e)

namespace Refuses

variable {d : Decode α} {f : α → Decode β}

theorem of_overrun (h : ∀ src : Source, ∃ least, d.Advances src least src.Overrun) :
    d.Refuses := by
  intro src _ pos hpos
  obtain ⟨least, hadvances⟩ := h src
  exact (hadvances pos hpos).mono (fun _ _ _ => trivial) fun _ _ => Or.inl

theorem pure (a : α) : (Pure.pure a : Decode α).Refuses := fun _ _ _ _ => trivial

theorem fail (e : Error) : (Decode.fail e : Decode α).Refuses := fun _ _ _ _ => Or.inr rfl

theorem emit (event : Event) : (Decode.emit event).Refuses := fun _ _ _ _ => trivial

theorem position : Decode.position.Refuses := fun _ _ _ _ => trivial

theorem bind (h : d.Refuses) (hd : d.Carries 0 d) (hf : ∀ a, (f a).Refuses) :
    (d >>= f).Refuses := by
  intro src more pos hpos
  have hfirst := ((h src more pos hpos).and (hd src pos hpos)).and (.self _)
  cases hresult : (d src pos).result with
  | error e =>
    rw [bind_error hresult]
    obtain he | he := (hfirst.of_error hresult).1.1
    · exact Or.inl he
    · exact Or.inr (by rw [bind_error he])
  | ok a =>
    have hrepeats : d.Repeats src pos 0 (d src pos).position a := (hfirst.of_ok hresult).1.2
    obtain ⟨hsame, hposition⟩ := hrepeats.within (src.within_extend more)
    simp only [Nat.add_zero] at hsame hposition
    rw [bind_ok hresult, bind_ok hsame, hposition]
    exact hf a src more _ hrepeats.bounds.2

theorem map {f : α → β} (h : d.Refuses) : (f <$> d).Refuses := by
  intro src more pos hpos
  refine ((h src more pos hpos).mono (fun _ _ _ => trivial) fun e _ he => ?_).map
  refine he.imp_right fun he => ?_
  rw [map_eq_bind, bind_error he]

theorem ite {c : Prop} [Decidable c] {d d' : Decode α} (h : d.Refuses) (h' : d'.Refuses) :
    (if c then d else d').Refuses := by
  split
  · exact h
  · exact h'

/-- What is decoded elsewhere fails there, whatever stands here. -/
theorem decodeAt (s : Sections) (id : SectionId) (offset : ℕ) (d : Decode α) :
    (s.decodeAt id offset d).Refuses := by
  intro src more pos _
  have hsame := (decodeAt_result s id offset d src pos).trans
    (decodeAt_result s id offset d (src.extend more) pos).symm
  refine (Outcome.Meets.self _).mono (fun _ _ _ => trivial) fun e _ he => Or.inr ?_
  rw [← hsame, he]

end Refuses
end Decode
end DwarfUnits
