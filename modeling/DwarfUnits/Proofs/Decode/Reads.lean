import DwarfUnits.Format
import DwarfUnits.Proofs.Bytes.Leb
import DwarfUnits.Proofs.Bytes.Word
import DwarfUnits.Proofs.Decode.Laws

/-! Decoders read what was written: from a run of bytes, a value and the position after the run. -/
namespace DwarfUnits

variable {α β : Type}

/-- The bytes `run` stand at `pos`. -/
def Source.Holds (src : Source) (pos : ℕ) (run : List UInt8) : Prop :=
  ∃ before after, src.bytes.data.toList = before ++ run ++ after ∧ before.length = pos

/-- From `run` at `pos`, `d` yields `a` and goes to the end of the run. -/
def Decode.Reads (d : Decode α) (src : Source) (pos : ℕ) (run : List UInt8) (a : α) : Prop :=
  src.Holds pos run → (d src pos).result = .ok a ∧ (d src pos).position = pos + run.length

namespace Source.Holds

variable {src : Source} {pos : ℕ} {run rest : List UInt8}

theorem left (h : src.Holds pos (run ++ rest)) : src.Holds pos run := by
  obtain ⟨before, after, hbytes, hlen⟩ := h
  exact ⟨before, rest ++ after, by rw [hbytes]; simp, hlen⟩

theorem right (h : src.Holds pos (run ++ rest)) : src.Holds (pos + run.length) rest := by
  obtain ⟨before, after, hbytes, hlen⟩ := h
  exact ⟨before ++ run, after, by rw [hbytes]; simp, by rw [List.length_append, hlen]⟩

theorem le_size (h : src.Holds pos run) : pos + run.length ≤ src.bytes.size := by
  obtain ⟨before, after, hbytes, hlen⟩ := h
  have hsize := congrArg List.length hbytes
  simp only [Array.length_toList, ByteArray.size_data, List.length_append] at hsize
  omega

theorem slice_eq (h : src.Holds pos run) : src.slice pos run.length = run := by
  obtain ⟨before, after, hbytes, hlen⟩ := h
  unfold Source.slice
  rw [ByteArray.data_extract, Array.toList_extract, hbytes, ← hlen, List.extract_eq_take_drop,
    List.append_assoc, List.drop_left, Nat.add_sub_cancel_left, List.take_left]

theorem getElem_eq {b : UInt8} (h : src.Holds pos (b :: rest)) :
    ∃ hpos : pos < src.bytes.size, src.bytes[pos] = b := by
  have hpos := h.le_size
  rw [List.length_cons] at hpos
  refine ⟨by omega, ?_⟩
  obtain ⟨before, after, hbytes, hlen⟩ := h
  have hget : src.bytes.data.toList[pos]? = some b := by
    rw [hbytes, List.append_assoc, List.getElem?_append_right (by omega), hlen, Nat.sub_self]
    rfl
  rw [List.getElem?_eq_some_iff] at hget
  obtain ⟨_, hget⟩ := hget
  exact hget

/-- The first byte that satisfies `p` is the last of a run in which no other does. -/
theorem indexFrom_eq {p : UInt8 → Bool} {last : UInt8} (hrun : ∀ b ∈ run, p b = false)
    (hlast : p last = true) (h : src.Holds pos (run ++ [last])) :
    src.indexFrom p pos = some (pos + run.length) := by
  -- On the run, along which the index moves byte by byte.
  induction run generalizing pos with
  | nil =>
    obtain ⟨hpos, hb⟩ := h.getElem_eq
    rw [Source.indexFrom, dif_pos hpos, hb, if_pos hlast]
    rfl
  | cons b run ih =>
    obtain ⟨hpos, hb⟩ := h.getElem_eq
    have hp := hrun b (List.mem_cons_self ..)
    have hall : src.Holds pos ([b] ++ (run ++ [last])) := h
    have hrest : src.Holds (pos + 1) (run ++ [last]) := hall.right
    rw [Source.indexFrom, dif_pos hpos, hb, hp, if_neg (by decide),
      ih (fun b' hb' => hrun b' (List.mem_cons_of_mem _ hb')) hrest, List.length_cons,
      Nat.add_assoc, Nat.add_comm 1]

/-- Nothing is found in a run to the end of the section that has no byte to find. -/
theorem indexFrom_eq_none {p : UInt8 → Bool} (hrun : ∀ b ∈ run, p b = false)
    (h : src.Holds pos run) (hend : pos + run.length = src.bytes.size) :
    src.indexFrom p pos = none := by
  induction run generalizing pos with
  | nil =>
    rw [List.length_nil] at hend
    rw [Source.indexFrom, dif_neg (by omega)]
  | cons b run ih =>
    rw [List.forall_mem_cons] at hrun
    rw [List.length_cons] at hend
    obtain ⟨hpos, hb⟩ := h.getElem_eq
    have hall : src.Holds pos ([b] ++ run) := h
    have hrest : src.Holds (pos + 1) run := hall.right
    rw [Source.indexFrom, dif_pos hpos, hb, hrun.1, if_neg (by decide),
      ih hrun.2 hrest (by omega)]

end Source.Holds

namespace Decode

variable {src : Source} {pos : ℕ} {run rest : List UInt8}

namespace Reads

variable {d : Decode α} {f : α → Decode β} {a a' : α} {b : β}

theorem pure (a : α) : (Pure.pure a : Decode α).Reads src pos [] a := fun _ => ⟨rfl, rfl⟩

theorem pure_of (h : a' = a) : (Pure.pure a' : Decode α).Reads src pos [] a := h ▸ pure a'

theorem emit (event : Event) : (Decode.emit event).Reads src pos [] () := fun _ => ⟨rfl, rfl⟩

theorem position : Decode.position.Reads src pos [] pos := fun _ => ⟨rfl, rfl⟩

theorem bind (h : d.Reads src pos run a) (hf : (f a).Reads src (pos + run.length) rest b) :
    (d >>= f).Reads src pos (run ++ rest) b := by
  intro hholds
  obtain ⟨hresult, hpos⟩ := h hholds.left
  obtain ⟨hresult', hpos'⟩ := hf hholds.right
  rw [bind_ok hresult, hpos]
  refine ⟨hresult', ?_⟩
  rw [hpos', List.length_append, Nat.add_assoc]

/-- A sequence whose first part takes no bytes. -/
theorem bind_nil (h : d.Reads src pos [] a) (hf : (f a).Reads src pos run b) :
    (d >>= f).Reads src pos run b :=
  h.bind hf

/-- A sequence whose second part takes no bytes. -/
theorem bind_last (h : d.Reads src pos run a) (hf : (f a).Reads src (pos + run.length) [] b) :
    (d >>= f).Reads src pos run b := by
  have := h.bind hf
  rwa [List.append_nil] at this

theorem map {f : α → β} (h : d.Reads src pos run a) (hf : f a = b) :
    (f <$> d).Reads src pos run b :=
  h.bind_last (hf ▸ pure (f a))

/-- A choice of decoder before a common rest, which stands in both branches. -/
theorem ite_bind {c : Prop} [Decidable c] {d' : Decode α}
    (h : (if c then d else d').Reads src pos run a)
    (hf : (f a).Reads src (pos + run.length) rest b) :
    (if c then d >>= f else d' >>= f).Reads src pos (run ++ rest) b := by
  split at h
  · rw [if_pos ‹c›]
    exact h.bind hf
  · rw [if_neg ‹¬c›]
    exact h.bind hf

theorem discard (h : d.Reads src pos run a) : (Functor.discard d).Reads src pos run () := h.map rfl

end Reads

theorem take_reads {n : ℕ} (hn : run.length = n) : (take n).Reads src pos run run := by
  intro h
  subst hn
  unfold take
  rw [if_pos h.le_size]
  exact ⟨congrArg _ h.slice_eq, rfl⟩

theorem skip_reads {n : ℕ} (hn : run.length = n) : (skip n).Reads src pos run () := by
  rw [skip_eq_map]
  exact (take_reads hn).map rfl

theorem takeThrough_reads {p : UInt8 → Bool} {last : UInt8} (hrun : ∀ b ∈ run, p b = false)
    (hlast : p last = true) : (takeThrough p).Reads src pos (run ++ [last]) (run ++ [last]) := by
  intro h
  have hlen : pos + run.length + 1 - pos = (run ++ [last]).length := by
    rw [List.length_append, List.length_singleton]
    omega
  unfold takeThrough
  rw [h.indexFrom_eq hrun hlast]
  dsimp only
  rw [hlen, h.slice_eq, List.length_append]
  exact ⟨rfl, rfl⟩

/-- Any run of bytes is a word. -/
theorem word_reads {n : ℕ} (hn : run.length = n) :
    (word n).Reads src pos run (src.order.value run) :=
  (take_reads hn).map rfl

theorem word_reads_bytes {width n : ℕ} (h : n < 256 ^ width) :
    (word width).Reads src pos (src.order.bytes width n) n := by
  have hword : (word width).Reads src pos (src.order.bytes width n) _ :=
    word_reads (ByteOrder.length_bytes ..)
  rwa [ByteOrder.value_bytes _ h] at hword

theorem u8_reads (b : UInt8) : u8.Reads src pos [b] b := by
  refine (word_reads rfl).map ?_
  cases src.order <;> simp [ByteOrder.value, ByteOrder.littleValue]

theorem i8_reads (b : UInt8) : i8.Reads src pos [b] b.toInt8 := (u8_reads b).map rfl

theorem u16_reads (n : UInt16) : u16.Reads src pos (src.order.bytes 2 n.toNat) n :=
  (word_reads_bytes n.toNat_lt).map UInt16.ofNat_toNat

theorem u32_reads (n : UInt32) : u32.Reads src pos (src.order.bytes 4 n.toNat) n :=
  (word_reads_bytes n.toNat_lt).map UInt32.ofNat_toNat

theorem u64_reads (n : UInt64) : u64.Reads src pos (src.order.bytes 8 n.toNat) n :=
  (word_reads_bytes n.toNat_lt).map UInt64.ofNat_toNat

theorem leb_reads (l : Leb) : (takeThrough Leb128.isLast).Reads src pos l.bytes l.bytes := by
  refine takeThrough_reads (fun b hb => ?_) (Leb.isLast_lastByte _)
  obtain ⟨d, -, rfl⟩ := List.mem_map.mp hb
  exact Leb.isLast_lowerByte d

theorem uleb128_reads (l : Leb) : uleb128.Reads src pos l.bytes l.value :=
  (leb_reads l).map l.unsigned_bytes

theorem sleb128_reads (l : Leb) : sleb128.Reads src pos l.bytes (Leb128.signed l.bytes) :=
  (leb_reads l).map rfl

theorem cstring_reads (h : 0 ∉ run) : cstring.Reads src pos (run ++ [0]) run := by
  refine (takeThrough_reads (fun b hb => ?_) rfl).map List.dropLast_concat
  exact beq_false_of_ne fun hzero => h (hzero ▸ hb)

theorem collect_reads_of {step : Decode (Option α)} {item : Option α} {items : List α}
    (hrun : run ≠ []) (hstep : step.Reads src pos run item)
    (hrest : (collectRest step item).Reads src (pos + run.length) rest items) :
    (collect step).Reads src pos (run ++ rest) items := by
  intro h
  have hmoves : (step src pos).Meets (fun _ next => pos < next ∧ next ≤ src.bytes.size)
      (fun _ _ => True) := by
    obtain ⟨hresult, hnext⟩ := hstep h.left
    have hlen := List.length_pos_iff.mpr hrun
    have hsize := h.left.le_size
    simp only [Outcome.Meets, hresult, hnext]
    omega
  rw [collect_apply hmoves]
  exact hstep.bind hrest h

/-- Items written one after another, and what ends them. -/
theorem collect_reads {ι : Type} {step : Decode (Option α)} {write : ι → List UInt8} {item : ι → α}
    {images : List ι} (hwrite : ∀ i ∈ images, write i ≠ [])
    (hstep : ∀ i ∈ images, ∀ pos, step.Reads src pos (write i) (some (item i)))
    (hrest : rest ≠ []) (hend : ∀ pos, step.Reads src pos rest none) :
    (collect step).Reads src pos (images.flatMap write ++ rest) (images.map item) := by
  induction images generalizing pos with
  | nil =>
    have := collect_reads_of hrest (hend pos) (.pure [])
    rwa [List.append_nil] at this
  | cons i images ih =>
    rw [List.flatMap_cons, List.append_assoc]
    refine collect_reads_of (hwrite i (List.mem_cons_self ..)) (hstep i (List.mem_cons_self ..) pos)
      (Reads.map ?_ rfl)
    exact ih (fun j hj => hwrite j (List.mem_cons_of_mem _ hj))
      (fun j hj => hstep j (List.mem_cons_of_mem _ hj))

end Decode

/-- The bytes `run` stand at `offset` of a section. -/
def Sections.Holds (s : Sections) (id : SectionId) (offset : ℕ) (run : List UInt8) : Prop :=
  ∃ src, s.source id = .ok src ∧ src.Holds offset run

theorem Sections.Holds.isNone_get? {s : Sections} {id : SectionId} {offset : ℕ}
    {run : List UInt8} (h : s.Holds id offset run) : (s.get? id).isNone = false := by
  obtain ⟨other, hother, -⟩ := h
  unfold Sections.source at hother
  cases hget : s.get? id with
  | none => simp [hget] at hother
  | some bytes => rfl

/-- What a decoder reads elsewhere takes nothing here. -/
theorem Decode.decodeAt_reads {s : Sections} {id : SectionId} {offset : ℕ} {d : Decode α} {a : α}
    {src : Source} {pos : ℕ} {run : List UInt8} (hrun : s.Holds id offset run)
    (hd : ∀ other, s.source id = .ok other → d.Reads other offset run a) :
    (s.decodeAt id offset d).Reads src pos [] a := by
  obtain ⟨other, hsource, hholds⟩ := hrun
  intro _
  have hle : offset ≤ other.bytes.size := Nat.le_trans (Nat.le_add_right ..) hholds.le_size
  unfold Sections.decodeAt elsewhere Source.start
  rw [hsource]
  dsimp only
  rw [if_pos hle]
  exact ⟨(hd other hsource hholds).1, rfl⟩

theorem Sections.order_of_source {s : Sections} {id : SectionId} {src : Source}
    (h : s.source id = .ok src) : src.order = s.order := by
  unfold Sections.source at h
  split at h
  · obtain rfl := Except.ok.inj h
    rfl
  · cases h

end DwarfUnits
