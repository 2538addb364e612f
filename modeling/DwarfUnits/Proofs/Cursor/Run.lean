import DwarfUnits.Proofs.Cursor.Machine

/-! Runs of cursor operations, which go on after errors: every one starts and ends inside the
section. -/
namespace DwarfUnits

/-- What can be asked of a cursor. -/
inductive Operation where
  | u8
  | i8
  | u16
  | u32
  | u64
  | uleb128
  | sleb128
  | cstring
  | bytes (n : UInt64)
  | skip (n : UInt64)
  | seek (target : UInt64)
  | offset (format : Format)
  | initialLength

namespace Operation

def Value : Operation → Type
  | u8 => UInt8
  | i8 => Int8
  | u16 => UInt16
  | u32 => UInt32
  | u64 | uleb128 | offset _ => UInt64
  | sleb128 => Int64
  | cstring | bytes _ => List UInt8
  | skip _ | seek _ => Unit
  | initialLength => UInt64 × Format

def decode : (op : Operation) → Decode op.Value
  | u8 => Decode.u8
  | i8 => Decode.i8
  | u16 => Decode.u16
  | u32 => Decode.u32
  | u64 => Decode.u64
  | uleb128 => Decode.uleb128
  | sleb128 => Decode.sleb128
  | cstring => Decode.cstring
  | bytes n => Decode.take n.toNat
  | skip n => Decode.skip n.toNat
  | seek target => Decode.seek target.toNat
  | offset format => Decode.offset format
  | initialLength => Decode.initialLength

def reader : (op : Operation) → Machine.Reader op.Value
  | u8 => .u8
  | i8 => .i8
  | u16 => .u16
  | u32 => .u32
  | u64 => .u64
  | uleb128 => .uleb128
  | sleb128 => .sleb128
  | cstring => .cstring
  | bytes n => .bytes n.toNat
  | skip n => .skip n.toNat
  | seek target => .seek target.toNat
  | offset format => .offset format
  | initialLength => .initialLength

/-- The first four bytes of a length that takes twelve. -/
def sentinel : List UInt8 := [0xff, 0xff, 0xff, 0xff]

/-- The runs of bytes that an operation takes; moving the cursor takes none. -/
def Takes : Operation → List UInt8 → Prop
  | u8, run | i8, run => run.length = 1
  | u16, run => run.length = 2
  | u32, run => run.length = 4
  | u64, run => run.length = 8
  | uleb128, run | sleb128, run => ∃ l : Leb, run = l.bytes
  | cstring, run => ∃ text, 0 ∉ text ∧ run = text ++ [0]
  | bytes n, run | skip n, run => run.length = n.toNat
  | seek _, _ => False
  | offset format, run => run.length = format.offsetSize
  | initialLength, run =>
    run.length = 4 ∧ run ≠ sentinel ∨ ∃ length, length.length = 8 ∧ run = sentinel ++ length

/-- The value of an operation, from the bytes that it takes alone. -/
def ofRun (order : ByteOrder) : (op : Operation) → List UInt8 → op.Value
  | u8, run => UInt8.ofNat (order.value run)
  | i8, run => (UInt8.ofNat (order.value run)).toInt8
  | u16, run => UInt16.ofNat (order.value run)
  | u32, run => UInt32.ofNat (order.value run)
  | u64, run | offset _, run => UInt64.ofNat (order.value run)
  | uleb128, run => Leb128.unsigned run
  | sleb128, run => Leb128.signed run
  | cstring, run => run.dropLast
  | bytes _, run => run
  | skip _, _ | seek _, _ => ()
  | initialLength, run =>
    if run.length = 4 then (UInt64.ofNat (order.value run), .dwarf32)
    else (UInt64.ofNat (order.value (run.drop 4)), .dwarf64)

/-- The position after `ops`, each done where the one before it left the cursor, failed or not. -/
def positionAfter (src : Source) (start : ℕ) (ops : List Operation) : ℕ :=
  ops.foldl (fun pos op => (op.decode src pos).position) start

/-- The same in the arithmetic of the machine, as long as no operation comes to a fault. -/
def readersAfter (src : Source) : ℕ → List Operation → Option ℕ
  | position, [] => some position
  | position, op :: ops => do
    let (_, next) ← op.reader src position
    readersAfter src next ops

/-- What an operation does from `pos`. -/
structure Safe (src : Source) (pos : ℕ) (op : Operation) : Prop where
  inside : pos ≤ src.bytes.size
  /-- In a section that memory can hold, no sum, shift or slice is out of range. -/
  reader : src.bytes.size < 2 ^ 63 →
    Machine.remaining? src pos = some (src.bytes.size - pos) ∧ op.reader.Agrees op.decode src pos
  /-- The cursor moves past the bytes that are taken, which the value is made of. -/
  parses : (∀ target, op ≠ seek target) →
    op.decode.Parses src pos fun run value => op.Takes run ∧ value = op.ofRun src.order run
  seeks : ∀ target, op = seek target →
    ((∃ value, (op.decode src pos).result = .ok value) ↔ target.toNat ≤ src.bytes.size) ∧
    ∀ value, (op.decode src pos).result = .ok value → (op.decode src pos).position = target.toNat
  /-- Only between the two words of a length the cursor stops on the way. -/
  fails : ∀ e, (op.decode src pos).result = .error e →
    (op = initialLength ∧ src.Holds pos sentinel ∧ src.bytes.size < pos + 12 ∧
      (op.decode src pos).position = pos + 4) ∨
    (¬(op = initialLength ∧ src.Holds pos sentinel) ∧ (op.decode src pos).position = pos)

variable {src : Source} {pos : ℕ} {run : List UInt8}

theorem bytes_escape (order : ByteOrder) : order.bytes 4 0xffffffff = sentinel := by
  cases order <;> rfl

theorem ofRun_short (order : ByteOrder) (h : run.length = 4) :
    initialLength.ofRun order run = (UInt64.ofNat (order.value run), Format.dwarf32) :=
  if_pos h

theorem ofRun_long (order : ByteOrder) {length : List UInt8} (h : length.length = 8) :
    initialLength.ofRun order (sentinel ++ length) =
      (UInt64.ofNat (order.value length), Format.dwarf64) := by
  refine if_neg ?_
  rw [List.length_append, h]
  decide

theorem initialLength_follows : initialLength.decode.Follows src pos fun run value =>
    initialLength.Takes run ∧ value = initialLength.ofRun src.order run := by
  refine Decode.initialLength_follows.imp fun run (length, format) _ hrun => ?_
  obtain ⟨hlimit, rfl⟩ := hrun
  cases format with
  | dwarf32 =>
    have hlength : length.toNat < 0xffffffff := hlimit
    have hvalue : src.order.value (src.order.bytes 4 length.toNat) = length.toNat :=
      ByteOrder.value_bytes _ (Nat.lt_trans hlength (by decide))
    have hne : src.order.bytes 4 length.toNat ≠ sentinel := by
      intro heq
      rw [heq, ← bytes_escape src.order, ByteOrder.value_bytes _ (by decide)] at hvalue
      omega
    refine ⟨Or.inl ⟨ByteOrder.length_bytes .., hne⟩, ?_⟩
    refine Eq.trans ?_ (ofRun_short src.order (ByteOrder.length_bytes ..)).symm
    rw [hvalue, UInt64.ofNat_toNat]
  | dwarf64 =>
    have hvalue : src.order.value (src.order.bytes 8 length.toNat) = length.toNat :=
      ByteOrder.value_bytes _ length.toNat_lt
    have hrun : Format.lengthBytes src.order length.toNat .dwarf64 =
        sentinel ++ src.order.bytes 8 length.toNat := congrArg (· ++ _) (bytes_escape _)
    rw [hrun]
    refine ⟨Or.inr ⟨_, ByteOrder.length_bytes .., rfl⟩, ?_⟩
    rw [ofRun_long src.order (ByteOrder.length_bytes ..), hvalue, UInt64.ofNat_toNat]

theorem decode_follows {op : Operation} (hseek : ∀ target, op ≠ seek target) :
    op.decode.Follows src pos fun run value => op.Takes run ∧ value = op.ofRun src.order run := by
  have hword {n : ℕ} {α : Type} {f : ℕ → α} : (f <$> Decode.word n).Follows src pos
      fun run value => run.length = n ∧ value = f (src.order.value run) :=
    .map ((Decode.word_follows_value n).imp fun run a _ hrun => ⟨hrun.1, by rw [hrun.2]⟩)
  have hleb {α : Type} {f : List UInt8 → α} : (f <$> Decode.takeThrough Leb128.isLast).Follows src
      pos fun run value => (∃ l : Leb, run = l.bytes) ∧ value = f run :=
    .map (Decode.leb_follows.imp fun run a _ hrun => ⟨hrun.2, by rw [hrun.1]⟩)
  cases op with
  | u8 | u16 | u32 | u64 => exact hword
  | offset format => exact hword
  | i8 => exact .map (hword.imp fun run b _ hrun => ⟨hrun.1, by rw [hrun.2]; rfl⟩)
  | uleb128 | sleb128 => exact hleb
  | cstring =>
    refine Decode.cstring_follows.imp fun run text _ hrun => ?_
    obtain ⟨hzero, rfl⟩ := hrun
    exact ⟨⟨text, hzero, rfl⟩, List.dropLast_concat.symm⟩
  | bytes n => exact Decode.take_follows n.toNat
  | skip n => exact (Decode.skip_follows n.toNat).imp fun run _ _ hrun => ⟨hrun, rfl⟩
  | seek target => exact absurd rfl (hseek target)
  | initialLength => exact initialLength_follows

theorem initialLength_reads (h : initialLength.Takes run) :
    initialLength.decode.Reads src pos run (initialLength.ofRun src.order run) := by
  obtain ⟨hlength, hne⟩ | ⟨length, hlength, rfl⟩ := h
  · have hrun : src.order.bytes 4 (src.order.value run) = run := by
      rw [← hlength]
      exact ByteOrder.bytes_value _ run
    have hvalue : src.order.value run < 256 ^ 4 := by
      rw [← hlength]
      exact ByteOrder.value_lt _ run
    have hescape : src.order.value run ≠ 0xffffffff := by
      intro heq
      rw [heq, bytes_escape] at hrun
      exact hne hrun.symm
    have hlimit : src.order.value run < Format.dwarf32.lengthLimit := by
      change src.order.value run < 0xffffffff
      omega
    have hread : Decode.initialLength.Reads src pos
        (src.order.bytes 4 (src.order.value run)) _ := Decode.initialLength_reads hlimit
    rw [hrun] at hread
    rw [ofRun_short src.order hlength]
    exact hread
  · have hlimit : src.order.value length < Format.dwarf64.lengthLimit := by
      rw [show Format.dwarf64.lengthLimit = 256 ^ 8 from rfl, ← hlength]
      exact ByteOrder.value_lt _ length
    have hread : Decode.initialLength.Reads src pos
        (src.order.bytes 4 0xffffffff ++ src.order.bytes 8 (src.order.value length)) _ :=
      Decode.initialLength_reads hlimit
    rw [bytes_escape, ← hlength, ByteOrder.bytes_value] at hread
    rw [ofRun_long src.order hlength]
    exact hread

theorem decode_reads {op : Operation} (h : op.Takes run) :
    op.decode.Reads src pos run (op.ofRun src.order run) := by
  have hword {n : ℕ} {α : Type} {f : ℕ → α} (hn : run.length = n) :
      (f <$> Decode.word n).Reads src pos run (f (src.order.value run)) :=
    (Decode.word_reads hn).map rfl
  cases op with
  | u8 | u16 | u32 | u64 => exact hword h
  | offset format => exact hword h
  | i8 => exact (hword h).map rfl
  | uleb128 | sleb128 =>
    obtain ⟨l, rfl⟩ := h
    exact (Decode.leb_reads l).map rfl
  | cstring =>
    obtain ⟨text, hzero, rfl⟩ := h
    rw [ofRun, List.dropLast_concat]
    exact Decode.cstring_reads hzero
  | bytes n => exact Decode.take_reads h
  | skip n => exact Decode.skip_reads h
  | seek target => exact absurd h id
  | initialLength => exact initialLength_reads h

theorem take_stops (n : ℕ) : (Decode.take n src pos).Meets
    (fun run next => next = pos + n ∧ src.Holds pos run ∧ run.length = n)
    (fun _ next => next = pos ∧ src.bytes.size < pos + n) := by
  unfold Decode.take
  split
  · exact ⟨rfl, Source.holds_slice ‹_›⟩
  · exact ⟨rfl, Nat.lt_of_not_le ‹_›⟩

theorem takeThrough_stops (p : UInt8 → Bool) :
    (Decode.takeThrough p src pos).Meets (fun _ _ => True) (fun _ next => next = pos) := by
  unfold Decode.takeThrough
  split
  · trivial
  · rfl

theorem decode_stops {op : Operation} (h : op ≠ initialLength) :
    (op.decode src pos).Meets (fun _ _ => True) (fun _ next => next = pos) := by
  have htake (n : ℕ) : (Decode.take n src pos).Meets (fun _ _ => True) (fun _ next => next = pos) :=
    (take_stops n).mono (fun _ _ _ => trivial) fun _ _ h => h.1
  have hword (n : ℕ) : (Decode.word n src pos).Meets (fun _ _ => True) (fun _ next => next = pos) :=
    .map (htake n)
  cases op with
  | u8 | u16 | u32 | u64 => exact .map (hword _)
  | offset format => exact .map (hword _)
  | i8 => exact .map (.map (hword 1))
  | uleb128 | sleb128 | cstring => exact .map (takeThrough_stops _)
  | bytes n => exact htake n.toNat
  | skip n =>
    change (Decode.skip n.toNat src pos).Meets _ _
    rw [Decode.skip_eq_map]
    exact .map (htake n.toNat)
  | seek target =>
    change (Decode.seek target.toNat src pos).Meets _ _
    unfold Decode.seek
    split
    · trivial
    · rfl
  | initialLength => exact absurd rfl h

theorem initialLength_stops : (initialLength.decode src pos).Meets (fun _ _ => True)
    (fun _ next => (src.Holds pos sentinel ∧ src.bytes.size < pos + 12 ∧ next = pos + 4) ∨
      (¬src.Holds pos sentinel ∧ next = pos)) := by
  have hword (n pos : ℕ) : (Decode.word n src pos).Meets (fun _ _ => True)
      (fun _ next => next = pos ∧ src.bytes.size < pos + n) :=
    .map ((take_stops n).mono (fun _ _ _ => trivial) fun _ _ h => h)
  have hfirst : (Decode.u32 src pos).Meets (fun _ _ => True)
      (fun _ next => next = pos ∧ src.bytes.size < pos + 4) := .map (hword 4 pos)
  change (Decode.initialLength src pos).Meets _ _
  unfold Decode.initialLength
  refine ((hfirst.and Decode.u32_follows).mono (fun _ _ h => h.2) fun _ _ h => Or.inr ?_).bind ?_
  · obtain ⟨⟨hnext, hshort⟩, -⟩ := h
    exact ⟨fun hholds => Nat.not_lt.mpr hholds.le_size hshort, hnext⟩
  · rintro first _ ⟨run, hholds, rfl, rfl⟩
    refine .ite (fun hescape => ?_) fun _ => trivial
    have hsentinel : src.Holds pos sentinel := by
      rw [← bytes_escape src.order]
      subst hescape
      exact hholds
    rw [ByteOrder.length_bytes]
    have hlength : (Decode.u64 src (pos + 4)).Meets (fun _ _ => True)
        (fun _ next => next = pos + 4 ∧ src.bytes.size < pos + 4 + 8) := .map (hword 8 (pos + 4))
    refine (hlength.mono (fun _ _ h => h) fun _ _ h => Or.inl ?_).bind fun _ _ _ => trivial
    exact ⟨hsentinel, by omega, h.1⟩

theorem reader_agrees (op : Operation) (hsize : src.bytes.size < 2 ^ 63)
    (hpos : pos ≤ src.bytes.size) : op.reader.Agrees op.decode src pos := by
  cases op with
  | u8 => exact Machine.Reader.u8_agrees hsize
  | i8 => exact Machine.Reader.i8_agrees hsize
  | u16 => exact Machine.Reader.u16_agrees hsize
  | u32 => exact Machine.Reader.u32_agrees hsize
  | u64 => exact Machine.Reader.u64_agrees hsize
  | uleb128 => exact Machine.Reader.uleb128_agrees hsize hpos
  | sleb128 => exact Machine.Reader.sleb128_agrees hsize hpos
  | cstring => exact Machine.Reader.cstring_agrees hsize hpos
  | bytes n => exact Machine.Reader.bytes_agrees hsize
  | skip n => exact Machine.Reader.skip_agrees hsize
  | seek target => exact Machine.Reader.seek_agrees
  | offset format => exact Machine.Reader.offset_agrees hsize format
  | initialLength => exact Machine.Reader.initialLength_agrees hsize

/-- What holds from every position inside the section. -/
theorem safe (op : Operation) (hpos : pos ≤ src.bytes.size) : op.Safe src pos where
  inside := hpos
  reader hsize := ⟨if_pos hpos, op.reader_agrees hsize hpos⟩
  parses hseek := (decode_follows hseek).parses fun run value hrun => by
    obtain ⟨htakes, rfl⟩ := hrun
    exact decode_reads htakes
  seeks := by
    rintro target rfl
    change ((∃ value, (Decode.seek target.toNat src pos).result = .ok value) ↔ _) ∧
      ∀ value, (Decode.seek target.toNat src pos).result = .ok value →
        (Decode.seek target.toNat src pos).position = _
    unfold Decode.seek Source.start
    by_cases h : target.toNat ≤ src.bytes.size
    · rw [if_pos h]
      exact ⟨⟨fun _ => h, fun _ => ⟨(), rfl⟩⟩, fun _ _ => rfl⟩
    · rw [if_neg h]
      simp [h]
  fails e he := by
    by_cases h : op = initialLength
    · subst h
      simpa using initialLength_stops.of_error he
    · exact Or.inr ⟨fun hand => h hand.1, (decode_stops h).of_error he⟩

/-- One operation keeps the cursor inside. -/
theorem Safe.position_le {op : Operation} (h : op.Safe src pos) :
    (op.decode src pos).position ≤ src.bytes.size := by
  have hinside := h.inside
  cases hresult : (op.decode src pos).result with
  | error e =>
    obtain ⟨-, hholds, -, hnext⟩ | ⟨-, hnext⟩ := h.fails e hresult
    · have hsentinel : pos + 4 ≤ src.bytes.size := hholds.le_size
      omega
    · omega
  | ok value =>
    by_cases hseek : ∃ target, op = seek target
    · obtain ⟨target, htarget⟩ := hseek
      obtain ⟨hiff, hnext⟩ := h.seeks target htarget
      rw [hnext value hresult]
      exact hiff.mp ⟨value, hresult⟩
    · obtain ⟨run, hholds, hnext, -⟩ :=
        (h.parses (not_exists.mp hseek) value _).mp ⟨hresult, rfl⟩
      rw [hnext]
      exact hholds.le_size

theorem positionAfter_le {start : ℕ} (hstart : start ≤ src.bytes.size) (ops : List Operation) :
    positionAfter src start ops ≤ src.bytes.size := by
  induction ops generalizing start with
  | nil => exact hstart
  | cons op ops ih => exact ih (op.safe hstart).position_le

/-- Operation by operation, the readers stay where the decoders are. -/
theorem readersAfter_eq (hsize : src.bytes.size < 2 ^ 63) {start : ℕ}
    (hstart : start ≤ src.bytes.size) (ops : List Operation) :
    readersAfter src start ops = some (positionAfter src start ops) := by
  induction ops generalizing start with
  | nil => rfl
  | cons op ops ih =>
    have hagrees := op.reader_agrees hsize hstart
    unfold Machine.Reader.Agrees at hagrees
    rw [readersAfter, hagrees]
    exact ih (op.safe hstart).position_le

theorem le_size_of_start {start offset : ℕ} (h : src.start offset = .ok start) :
    start ≤ src.bytes.size := by
  unfold Source.start at h
  split at h
  · rename_i hle
    obtain rfl := Except.ok.inj h
    exact hle
  · cases h

/-- From the start of a section or a place inside it, and after any operations, some of them failed:
none has come to a fault, and the next one is safe where they leave the cursor. -/
theorem run_safe (src : Source) {start : ℕ}
    (hstart : start = 0 ∨ ∃ offset, src.start offset = .ok start) (ops : List Operation)
    (op : Operation) :
    (src.bytes.size < 2 ^ 63 →
      readersAfter src start ops = some (positionAfter src start ops)) ∧
    op.Safe src (positionAfter src start ops) := by
  have hinside : start ≤ src.bytes.size := by
    obtain rfl | ⟨offset, hoffset⟩ := hstart
    · exact Nat.zero_le _
    · exact le_size_of_start hoffset
  exact ⟨fun hsize => readersAfter_eq hsize hinside ops, op.safe (positionAfter_le hinside ops)⟩

/-- A length too large to pass over leaves the cursor, a length that breaks off moves it by four. -/
theorem run_safe_sample :
    readersAfter ⟨.info, .little, ⟨#[9, 255, 255, 255, 255, 7]⟩⟩ 1
      [.skip 0xffffffffffffffff, .initialLength] = some 5 ∧
    Safe ⟨.info, .little, ⟨#[9, 255, 255, 255, 255, 7]⟩⟩ 5 .u8 := by
  have h := run_safe ⟨.info, .little, ⟨#[9, 255, 255, 255, 255, 7]⟩⟩ (Or.inr ⟨1, rfl⟩)
    [.skip 0xffffffffffffffff, .initialLength] .u8
  exact ⟨h.1 (by decide), h.2⟩

end Operation
end DwarfUnits
