import DwarfUnits.Proofs.Bytes.Integers
import DwarfUnits.Proofs.Decode.Locality
import DwarfUnits.Proofs.Image.Fields

/-! Grammars of decoders: the runs of bytes from which a decoder yields a value, and no others. -/
namespace DwarfUnits

variable {α β : Type}

namespace Decode

/-- Whatever `d` yields from `pos`, it takes from a run of bytes that `grammar` has for it. -/
abbrev Follows (d : Decode α) (src : Source) (pos : ℕ) (grammar : List UInt8 → α → Prop) : Prop :=
  (d src pos).Gives fun a next =>
    ∃ run, src.Holds pos run ∧ next = pos + run.length ∧ grammar run a

/-- From `pos`, `d` yields `a` and ends at `next` exactly if `grammar` has the bytes between them
for `a`. -/
def Parses (d : Decode α) (src : Source) (pos : ℕ) (grammar : List UInt8 → α → Prop) : Prop :=
  ∀ a next, (d src pos).result = .ok a ∧ (d src pos).position = next ↔
    ∃ run, src.Holds pos run ∧ next = pos + run.length ∧ grammar run a

variable {d d' : Decode α} {f : α → Decode β} {src : Source} {pos : ℕ}
  {grammar : List UInt8 → α → Prop} {whole : List UInt8 → β → Prop}

namespace Follows

theorem imp {wider : List UInt8 → α → Prop} (h : d.Follows src pos grammar)
    (hwider : ∀ run a, src.Holds pos run → grammar run a → wider run a) :
    d.Follows src pos wider := by
  refine Outcome.Meets.imp h fun a next hrun => ?_
  obtain ⟨run, hholds, hnext, hgrammar⟩ := hrun
  exact ⟨run, hholds, hnext, hwider run a hholds hgrammar⟩

theorem pure {a : α} (hpos : pos ≤ src.bytes.size) (h : grammar [] a) :
    (Pure.pure a : Decode α).Follows src pos grammar :=
  ⟨[], Source.holds_nil hpos, rfl, h⟩

theorem fail {e : Error} : (Decode.fail e : Decode α).Follows src pos grammar := trivial

/-- What follows is read from where the first part ends, and completes its run. -/
theorem bind (h : d.Follows src pos grammar)
    (hf : ∀ a run, pos + run.length ≤ src.bytes.size → grammar run a →
      (f a).Follows src (pos + run.length) fun rest b => whole (run ++ rest) b) :
    (d >>= f).Follows src pos whole := by
  refine Outcome.Meets.bind h fun a mid hmid => ?_
  obtain ⟨run, hholds, rfl, hgrammar⟩ := hmid
  refine Outcome.Meets.imp (hf a run hholds.le_size hgrammar) fun b next hnext => ?_
  obtain ⟨rest, hrest, rfl, hwhole⟩ := hnext
  refine ⟨run ++ rest, hholds.append hrest, ?_, hwhole⟩
  rw [List.length_append, Nat.add_assoc]

theorem map {f : α → β} (h : d.Follows src pos fun run a => whole run (f a)) :
    (f <$> d).Follows src pos whole :=
  Outcome.Meets.map h

theorem bind_pure {f : α → β} (h : d.Follows src pos fun run a => whole run (f a)) :
    (d >>= fun a => Pure.pure (f a)).Follows src pos whole := h.map

theorem discard {grammar : List UInt8 → Unit → Prop}
    (h : d.Follows src pos fun run _ => grammar run ()) :
    (Functor.discard d).Follows src pos grammar := map h

theorem ite {c : Prop} [Decidable c] (h : c → d.Follows src pos grammar)
    (h' : ¬c → d'.Follows src pos grammar) :
    (if c then d else d').Follows src pos grammar :=
  Outcome.Meets.ite h h'

/-- A choice of decoder before a common rest, which stands in both branches. -/
theorem ite_bind {c : Prop} [Decidable c]
    (h : (if c then d else d').Follows src pos grammar)
    (hf : ∀ a run, pos + run.length ≤ src.bytes.size → grammar run a →
      (f a).Follows src (pos + run.length) fun rest b => whole (run ++ rest) b) :
    (if c then d >>= f else d' >>= f).Follows src pos whole := by
  split at h
  · rw [if_pos ‹c›]
    exact h.bind hf
  · rw [if_neg ‹¬c›]
    exact h.bind hf

theorem emit_bind {event : Event} {f : Unit → Decode β} (h : (f ()).Follows src pos whole) :
    (Decode.emit event >>= f).Follows src pos whole :=
  Outcome.Meets.emit_bind h

theorem position_bind {f : ℕ → Decode β} (h : (f pos).Follows src pos whole) :
    (Decode.position >>= f).Follows src pos whole := h

/-- What the grammar says of a value holds of what is yielded. -/
theorem gives {good : α → Prop} (h : d.Follows src pos grammar)
    (hgood : ∀ run a, src.Holds pos run → grammar run a → good a) :
    (d src pos).Gives fun a _ => good a := by
  refine Outcome.Meets.imp h fun a next hrun => ?_
  obtain ⟨run, hholds, -, hgrammar⟩ := hrun
  exact hgood run a hholds hgrammar

/-- A decoder that also reads every run of its grammar accepts exactly that. -/
theorem parses (h : d.Follows src pos grammar)
    (hreads : ∀ run a, grammar run a → d.Reads src pos run a) : d.Parses src pos grammar := by
  intro a next
  constructor
  · rintro ⟨hresult, rfl⟩
    exact h.of_ok hresult
  · rintro ⟨run, hholds, rfl, hgrammar⟩
    exact hreads run a hgrammar hholds

end Follows

/-- A run that is read is read to what the grammar has for it. -/
theorem reads_of_follows {run : List UInt8} {a : α} (hreads : ∃ a, d.Reads src pos run a)
    (h : d.Follows src pos grammar) (ha : ∀ a', grammar run a' → a' = a) :
    d.Reads src pos run a := by
  intro hholds
  obtain ⟨a', hread⟩ := hreads
  obtain ⟨hresult, hnext⟩ := hread hholds
  obtain ⟨run', hholds', hnext', hgrammar⟩ := h.of_ok hresult
  have hlength : run'.length = run.length := by omega
  have hrun : run' = run := by
    rw [← hholds'.slice_eq, hlength, hholds.slice_eq]
  rw [hrun] at hgrammar
  exact ⟨ha a' hgrammar ▸ hresult, hnext⟩

theorem take_follows (n : ℕ) :
    (take n).Follows src pos fun run a => run.length = n ∧ a = run := by
  by_cases hn : pos + n ≤ src.bytes.size
  · have htake : take n src pos = ⟨.ok (src.slice pos n), pos + n, []⟩ := if_pos hn
    obtain ⟨hholds, hlen⟩ := Source.holds_slice hn
    unfold Follows Outcome.Gives Outcome.Meets
    rw [htake]
    exact ⟨src.slice pos n, hholds, by rw [hlen], hlen, rfl⟩
  · have htake : take n src pos = ⟨.error (.outOfBounds src.id pos n), pos, []⟩ := if_neg hn
    unfold Follows Outcome.Gives Outcome.Meets
    rw [htake]
    trivial

theorem skip_follows (n : ℕ) : (skip n).Follows src pos fun run _ => run.length = n := by
  rw [skip_eq_map]
  exact .map ((take_follows n).imp fun run _ _ hrun => hrun.1)

/-- Only the last byte taken is one that was looked for. -/
theorem takeThrough_follows (p : UInt8 → Bool) :
    (takeThrough p).Follows src pos fun run a => a = run ∧
      ∃ body last, run = body ++ [last] ∧ (∀ b ∈ body, p b = false) ∧ p last = true := by
  cases hi : src.indexFrom p pos with
  | none => simp only [Follows, Outcome.Meets, takeThrough, hi]
  | some i =>
    obtain ⟨body, last, hholds, rfl, hbody, hlast⟩ := Source.exists_run_of_indexFrom hi
    have hreads : (takeThrough p).Reads src pos (body ++ [last]) (body ++ [last]) :=
      takeThrough_reads hbody hlast
    obtain ⟨hresult, hnext⟩ := hreads hholds
    unfold Follows Outcome.Gives Outcome.Meets
    rw [hresult]
    exact ⟨body ++ [last], hholds, hnext, rfl, body, last, rfl, hbody, hlast⟩

theorem word_follows_value (n : ℕ) :
    (word n).Follows src pos fun run a => run.length = n ∧ a = src.order.value run := by
  refine Follows.map ((take_follows n).imp fun run a _ hrun => ?_)
  exact ⟨hrun.1, congrArg src.order.value hrun.2⟩

theorem word_follows (n : ℕ) :
    (word n).Follows src pos fun run a => a < 256 ^ n ∧ run = src.order.bytes n a := by
  refine (word_follows_value n).imp fun run a _ hrun => ?_
  obtain ⟨rfl, rfl⟩ := hrun
  exact ⟨ByteOrder.value_lt _ _, (ByteOrder.bytes_value _ _).symm⟩

theorem u8_follows : u8.Follows src pos fun run b => run = [b] := by
  refine Follows.map ((word_follows 1).imp fun run n _ hrun => ?_)
  obtain ⟨-, rfl⟩ := hrun
  cases src.order <;> rfl

theorem i8_follows : i8.Follows src pos fun run n => run = [n.toUInt8] := by
  refine Follows.map (u8_follows.imp fun run b _ hrun => ?_)
  rw [hrun, UInt8.toUInt8_toInt8]

theorem u16_follows : u16.Follows src pos fun run n => run = src.order.bytes 2 n.toNat := by
  refine Follows.map ((word_follows 2).imp fun run n _ hrun => ?_)
  rw [UInt16.toNat_ofNat_of_lt' hrun.1]
  exact hrun.2

theorem u32_follows : u32.Follows src pos fun run n => run = src.order.bytes 4 n.toNat := by
  refine Follows.map ((word_follows 4).imp fun run n _ hrun => ?_)
  rw [UInt32.toNat_ofNat_of_lt' hrun.1]
  exact hrun.2

theorem u64_follows : u64.Follows src pos fun run n => run = src.order.bytes 8 n.toNat := by
  refine Follows.map ((word_follows 8).imp fun run n _ hrun => ?_)
  rw [UInt64.toNat_ofNat_of_lt' hrun.1]
  exact hrun.2

theorem leb_follows :
    (takeThrough Leb128.isLast).Follows src pos fun run a => a = run ∧ ∃ l : Leb, run = l.bytes := by
  refine (takeThrough_follows _).imp fun run a _ hrun => ?_
  obtain ⟨rfl, body, last, rfl, hbody, hlast⟩ := hrun
  obtain ⟨l, hl⟩ := Leb.exists_bytes hbody hlast
  exact ⟨rfl, l, hl.symm⟩

theorem uleb128_follows :
    uleb128.Follows src pos fun run n => ∃ l : Leb, run = l.bytes ∧ n = l.value := by
  refine Follows.map (leb_follows.imp fun run a _ hrun => ?_)
  obtain ⟨rfl, l, rfl⟩ := hrun
  exact ⟨l, rfl, l.unsigned_bytes⟩

theorem sleb128_follows :
    sleb128.Follows src pos fun run n => ∃ l : Leb, run = l.bytes ∧ n = Int64.ofInt l.integer := by
  refine Follows.map (leb_follows.imp fun run a _ hrun => ?_)
  obtain ⟨rfl, l, rfl⟩ := hrun
  exact ⟨l, rfl, l.signed_bytes⟩

theorem cstring_follows :
    cstring.Follows src pos fun run bytes => 0 ∉ bytes ∧ run = bytes ++ [0] := by
  refine Follows.map ((takeThrough_follows _).imp fun run a _ hrun => ?_)
  obtain ⟨rfl, body, last, rfl, hbody, hlast⟩ := hrun
  rw [List.dropLast_concat, beq_iff_eq.mp hlast]
  refine ⟨fun hzero => ?_, rfl⟩
  have hne := hbody 0 hzero
  simp at hne

theorem offset_follows (format : Format) :
    (offset format).Follows src pos fun run n =>
      format.FitsOffset n ∧ run = format.offsetBytes src.order n := by
  refine Follows.map ((word_follows _).imp fun run n _ hrun => ?_)
  have hlimit : 256 ^ format.offsetSize ≤ UInt64.size := by cases format <;> decide
  have hn : (UInt64.ofNat n).toNat = n := UInt64.toNat_ofNat_of_lt' (Nat.lt_of_lt_of_le hrun.1 hlimit)
  rw [Format.FitsOffset, Format.offsetBytes_eq, hn]
  exact hrun

/-- A 32-bit length is not the escape word; a 64-bit one stands after it. -/
theorem initialLength_follows :
    initialLength.Follows src pos fun run (length, format) =>
      length.toNat < format.lengthLimit ∧ run = format.lengthBytes src.order length.toNat := by
  unfold initialLength
  refine u32_follows.bind fun first run hsize hrun => ?_
  refine .ite (fun hescape => ?_) fun hne => .pure hsize ?_
  · subst hescape hrun
    refine .bind_pure (u64_follows.imp fun rest length _ hrest => ⟨length.toNat_lt, ?_⟩)
    rw [hrest]
    rfl
  · have hlt : first.toNat < 0xffffffff := by
      have hfirst := first.toNat_lt
      have hvalue : first.toNat ≠ Format.escape.toNat := fun h => hne (UInt32.toNat_inj.mp h)
      change first.toNat ≠ 0xffffffff at hvalue
      omega
    rw [List.append_nil, hrun]
    exact ⟨by simpa [Format.lengthLimit] using hlt, by simp [Format.lengthBytes]⟩

/-- What one step of a list takes: an item as it is written, or what closes the list. -/
def Element {ι : Type} (close : List UInt8 → Prop) (write : ι → List UInt8) (item : ι → α)
    (run : List UInt8) : Option α → Prop
  | none => close run
  | some a => ∃ i, run = write i ∧ a = item i

/-- Items one after another, each of them written, and what closes their list. -/
theorem collect_follows {ι : Type} {step : Decode (Option α)} {write : ι → List UInt8}
    {item : ι → α} {close : List UInt8 → Prop} (hmoves : step.Advances src 1 fun _ => True)
    (hstep : ∀ pos, step.Follows src pos (Element close write item))
    (hpos : pos ≤ src.bytes.size) :
    (collect step).Follows src pos fun run items =>
      ∃ (images : List ι) (rest : List UInt8), close rest ∧
        run = images.flatMap write ++ rest ∧ items = images.map item := by
  -- Every item leaves less of the section for the rest.
  induction hn : src.bytes.size - pos using Nat.strongRecOn generalizing pos with
  | ind n ih =>
    have hmeets := hmoves pos hpos
    have hfollows : (step >>= collectRest step).Follows src pos fun run items =>
        ∃ (images : List ι) (rest : List UInt8), close rest ∧
          run = images.flatMap write ++ rest ∧ items = images.map item := by
      refine Outcome.Meets.bind (hmeets.and (hstep pos)).gives fun found mid hfound => ?_
      obtain ⟨⟨hmid, hsize⟩, run, hholds, rfl, hrun⟩ := hfound
      cases found with
      | none =>
        refine ⟨run, hholds, rfl, [], run, hrun, ?_, rfl⟩
        rw [List.flatMap_nil, List.nil_append]
      | some a =>
        obtain ⟨i, rfl, rfl⟩ := hrun
        have hrest := ih (src.bytes.size - (pos + (write i).length)) (by omega) hsize rfl
        refine .map (Outcome.Meets.imp hrest fun items next hnext => ?_)
        obtain ⟨tail, htail, rfl, images, rest, hclose, rfl, rfl⟩ := hnext
        refine ⟨write i ++ (images.flatMap write ++ rest), hholds.append htail, ?_, i :: images,
          rest, hclose, ?_, rfl⟩
        · have hlength : (write i ++ (images.flatMap write ++ rest)).length =
              (write i).length + (images.flatMap write ++ rest).length := List.length_append
          rw [hlength, Nat.add_assoc]
        · rw [List.flatMap_cons, List.append_assoc]
    rw [Follows, collect_apply hmeets.gives]
    exact hfollows

/-- What is decoded in another section takes nothing from this one. -/
theorem decodeAt_follows {s : Sections} {id : SectionId} {offset : ℕ}
    (hpos : pos ≤ src.bytes.size) (hd : ∀ other, d.Follows other offset grammar) :
    (s.decodeAt id offset d).Follows src pos fun run a =>
      run = [] ∧ ∃ text, s.Holds id offset text ∧ grammar text a := by
  unfold Sections.decodeAt elsewhere Source.start
  cases hsource : s.source id with
  | error e => trivial
  | ok other =>
    by_cases hoffset : offset ≤ other.bytes.size
    · have hinner := hd other
      unfold Follows Outcome.Gives Outcome.Meets at hinner ⊢
      simp only [if_pos hoffset]
      cases hresult : (d other offset).result with
      | error e => trivial
      | ok a =>
        simp only [hresult] at hinner
        obtain ⟨text, htext, -, hgrammar⟩ := hinner
        exact ⟨[], Source.holds_nil hpos, rfl, rfl, text, ⟨other, hsource, htext⟩, hgrammar⟩
    · unfold Follows Outcome.Gives Outcome.Meets
      simp only [if_neg hoffset]

end Decode
end DwarfUnits
