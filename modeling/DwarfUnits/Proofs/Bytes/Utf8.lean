import DwarfUnits.Bytes.Text

/-! Well-formed UTF-8 is kept as it is when bytes become text. -/
namespace DwarfUnits.Text

def utf8 (s : String) : List UInt8 := s.toList.flatMap String.utf8EncodeChar

theorem charsFrom_cons (pending : Option Pending) (b : UInt8) (rest : List UInt8) :
    charsFrom pending (b :: rest) = (step pending b).1 ++ charsFrom (step pending b).2 rest := by
  cases pending <;> rfl

theorem step_last {bits : Nat} {r : Range} {b : UInt8} (h : r.contains b = true) :
    step (some ⟨bits, [r]⟩) b = ([Char.ofNat (64 * bits + (b.toNat - 0x80))], none) := by
  simp [step, h]

theorem step_more {bits : Nat} {r r' : Range} {more : List Range} {b : UInt8}
    (h : r.contains b = true) :
    step (some ⟨bits, r :: r' :: more⟩) b =
      ([], some ⟨64 * bits + (b.toNat - 0x80), r' :: more⟩) := by
  simp [step, h]

theorem step_start {bits : Nat} {r : Range} {more : List Range} {b : UInt8}
    (h : leading b = some ⟨bits, r :: more⟩) : step none b = ([], some ⟨bits, r :: more⟩) := by
  simp [step, start, h]

theorem contains_iff {low high b : Nat} (hl : low < 256) (hh : high < 256) (hb : b < 256) :
    (Range.mk (UInt8.ofNat low) (UInt8.ofNat high)).contains (UInt8.ofNat b) = true ↔
      low ≤ b ∧ b ≤ high := by
  simp [Range.contains, UInt8.le_iff_toNat_le, Nat.mod_eq_of_lt hl, Nat.mod_eq_of_lt hh,
    Nat.mod_eq_of_lt hb]

/-- The table of leading bytes in numbers. -/
theorem leading_ofNat {n : Nat} (hn : n < 256) :
    leading (UInt8.ofNat n) =
      if n < 0x80 then some ⟨n, []⟩
      else if n < 0xC2 then none
      else if n < 0xE0 then some ⟨n - 0xC0, [.tail]⟩
      else if n = 0xE0 then some ⟨0, [⟨0xA0, 0xBF⟩, .tail]⟩
      else if n = 0xED then some ⟨0xD, [⟨0x80, 0x9F⟩, .tail]⟩
      else if n < 0xF0 then some ⟨n - 0xE0, [.tail, .tail]⟩
      else if n = 0xF0 then some ⟨0, [⟨0x90, 0xBF⟩, .tail, .tail]⟩
      else if n < 0xF4 then some ⟨n - 0xF0, [.tail, .tail, .tail]⟩
      else if n = 0xF4 then some ⟨4, [⟨0x80, 0x8F⟩, .tail, .tail]⟩
      else none := by
  simp [leading, UInt8.lt_iff_toNat_lt, ← UInt8.toNat_inj, Nat.mod_eq_of_lt hn]

/-- A continuation byte carries six bits. -/
theorem tail_contains (n : Nat) : Range.tail.contains (UInt8.ofNat (n % 64 + 0x80)) = true := by
  change (Range.mk (UInt8.ofNat 0x80) (UInt8.ofNat 0xBF)).contains _ = true
  rw [contains_iff (by decide) (by decide) (by omega)]
  omega

theorem toNat_tail (n : Nat) : (UInt8.ofNat (n % 64 + 0x80)).toNat - 0x80 = n % 64 := by
  rw [UInt8.toNat_ofNat_of_lt' (by change _ < 256; omega)]
  omega

theorem charsFrom_two {first : UInt8} {v : Nat} (rest : List UInt8)
    (hlead : leading first = some ⟨v / 64, [.tail]⟩) :
    charsFrom none (first :: UInt8.ofNat (v % 64 + 0x80) :: rest) =
      Char.ofNat v :: charsFrom none rest := by
  rw [charsFrom_cons, step_start hlead, charsFrom_cons, step_last (tail_contains v), toNat_tail,
    Nat.div_add_mod]
  rfl

theorem charsFrom_three {first : UInt8} {r : Range} {v : Nat} (rest : List UInt8)
    (hlead : leading first = some ⟨v / 4096, [r, .tail]⟩)
    (hr : r.contains (UInt8.ofNat (v / 64 % 64 + 0x80)) = true) :
    charsFrom none (first :: UInt8.ofNat (v / 64 % 64 + 0x80) :: UInt8.ofNat (v % 64 + 0x80) ::
      rest) = Char.ofNat v :: charsFrom none rest := by
  have hv : 64 * (64 * (v / 4096) + v / 64 % 64) + v % 64 = v := by omega
  rw [charsFrom_cons, step_start hlead, charsFrom_cons, step_more hr, charsFrom_cons,
    step_last (tail_contains v), toNat_tail, toNat_tail, hv]
  rfl

theorem charsFrom_four {first : UInt8} {r : Range} {v : Nat} (rest : List UInt8)
    (hlead : leading first = some ⟨v / 262144, [r, .tail, .tail]⟩)
    (hr : r.contains (UInt8.ofNat (v / 4096 % 64 + 0x80)) = true) :
    charsFrom none (first :: UInt8.ofNat (v / 4096 % 64 + 0x80) ::
      UInt8.ofNat (v / 64 % 64 + 0x80) :: UInt8.ofNat (v % 64 + 0x80) :: rest) =
      Char.ofNat v :: charsFrom none rest := by
  have hv : 64 * (64 * (64 * (v / 262144) + v / 4096 % 64) + v / 64 % 64) + v % 64 = v := by omega
  rw [charsFrom_cons, step_start hlead, charsFrom_cons, step_more hr, charsFrom_cons,
    step_more (tail_contains _), charsFrom_cons, step_last (tail_contains v), toNat_tail,
    toNat_tail, toNat_tail, hv]
  rfl

theorem leading_three {v : Nat} (hlow : 0x7FF < v) (hhigh : v ≤ 0xFFFF)
    (hvalid : v < 0xD800 ∨ 0xDFFF < v) :
    ∃ r, leading (UInt8.ofNat (v / 4096 % 0x10 + 0xE0)) = some ⟨v / 4096, [r, .tail]⟩ ∧
      r.contains (UInt8.ofNat (v / 64 % 64 + 0x80)) = true := by
  rw [leading_ofNat (by omega), if_neg (by omega), if_neg (by omega), if_neg (by omega)]
  by_cases hfirst : v / 4096 = 0
  · refine ⟨Range.mk (UInt8.ofNat 0xA0) (UInt8.ofNat 0xBF), ?_, ?_⟩
    · rw [if_pos (by omega), hfirst]
      rfl
    · rw [contains_iff (by decide) (by decide) (by omega)]
      omega
  by_cases hsurrogate : v / 4096 = 0xD
  · refine ⟨Range.mk (UInt8.ofNat 0x80) (UInt8.ofNat 0x9F), ?_, ?_⟩
    · rw [if_neg (by omega), if_pos (by omega), hsurrogate]
      rfl
    · rw [contains_iff (by decide) (by decide) (by omega)]
      omega
  · have hbits : v / 4096 % 0x10 + 0xE0 - 0xE0 = v / 4096 := by omega
    refine ⟨.tail, ?_, tail_contains _⟩
    rw [if_neg (by omega), if_neg (by omega), if_pos (by omega), hbits]

theorem leading_four {v : Nat} (hlow : 0xFFFF < v) (hhigh : v < 0x110000) :
    ∃ r, leading (UInt8.ofNat (v / 262144 % 0x08 + 0xF0)) = some ⟨v / 262144, [r, .tail, .tail]⟩ ∧
      r.contains (UInt8.ofNat (v / 4096 % 64 + 0x80)) = true := by
  rw [leading_ofNat (by omega), if_neg (by omega), if_neg (by omega), if_neg (by omega),
    if_neg (by omega), if_neg (by omega), if_neg (by omega)]
  by_cases hfirst : v / 262144 = 0
  · refine ⟨Range.mk (UInt8.ofNat 0x90) (UInt8.ofNat 0xBF), ?_, ?_⟩
    · rw [if_pos (by omega), hfirst]
      rfl
    · rw [contains_iff (by decide) (by decide) (by omega)]
      omega
  by_cases hlast : v / 262144 = 4
  · refine ⟨Range.mk (UInt8.ofNat 0x80) (UInt8.ofNat 0x8F), ?_, ?_⟩
    · rw [if_neg (by omega), if_neg (by omega), if_pos (by omega), hlast]
      rfl
    · rw [contains_iff (by decide) (by decide) (by omega)]
      omega
  · have hbits : v / 262144 % 0x08 + 0xF0 - 0xF0 = v / 262144 := by omega
    refine ⟨.tail, ?_, tail_contains _⟩
    rw [if_neg (by omega), if_pos (by omega), hbits]

/-- One character is decoded from its bytes, whatever follows. -/
theorem charsFrom_utf8EncodeChar (c : Char) (rest : List UInt8) :
    charsFrom none (String.utf8EncodeChar c ++ rest) = c :: charsFrom none rest := by
  have hvalid : c.val.toNat < 0xD800 ∨ 0xDFFF < c.val.toNat ∧ c.val.toNat < 0x110000 := c.valid
  have hc : Char.ofNat c.val.toNat = c := Char.ofNat_toNat c
  unfold String.utf8EncodeChar
  generalize c.val.toNat = v at hvalid hc ⊢
  rw [← hc]
  dsimp only
  -- One case for each length of an encoding.
  split
  · have hlead : leading (UInt8.ofNat v) = some ⟨v, []⟩ := by
      rw [leading_ofNat (by omega), if_pos (by omega)]
    simp [charsFrom_cons, step, start, hlead]
  split
  · have hbits : v / 64 % 0x20 + 0xC0 - 0xC0 = v / 64 := by omega
    refine charsFrom_two rest ?_
    rw [leading_ofNat (by omega), if_neg (by omega), if_neg (by omega), if_pos (by omega), hbits]
  split
  · obtain ⟨r, hlead, hr⟩ := leading_three (v := v) (by omega) (by omega) (by omega)
    exact charsFrom_three rest hlead hr
  · obtain ⟨r, hlead, hr⟩ := leading_four (v := v) (by omega) (by omega)
    exact charsFrom_four rest hlead hr

theorem charsFrom_utf8 (chars : List Char) :
    charsFrom none (chars.flatMap String.utf8EncodeChar) = chars := by
  induction chars with
  | nil => rfl
  | cons c chars ih => rw [List.flatMap_cons, charsFrom_utf8EncodeChar, ih]

/-- Well-formed text survives. -/
theorem ofBytes_utf8 (s : String) : ofBytes (utf8 s) = s := by
  rw [ofBytes, utf8, charsFrom_utf8, String.ofList_toList]

/-- Only the zero character has a zero byte. -/
theorem zero_mem_utf8EncodeChar {c : Char} (h : 0 ∈ String.utf8EncodeChar c) :
    c = Char.ofNat 0 := by
  have hc : Char.ofNat c.val.toNat = c := Char.ofNat_toNat c
  unfold String.utf8EncodeChar at h
  generalize c.val.toNat = v at h hc
  have hbyte (n : Nat) : (0 : UInt8) = UInt8.ofNat n ↔ n % 256 = 0 := by
    rw [← UInt8.toNat_inj, UInt8.toNat_ofNat']
    exact eq_comm
  have hv : v = 0 := by
    dsimp only at h
    split at h
    · simp only [List.mem_cons, List.not_mem_nil, hbyte, or_false] at h
      omega
    split at h
    · simp only [List.mem_cons, List.not_mem_nil, hbyte, or_false] at h
      omega
    split at h
    · simp only [List.mem_cons, List.not_mem_nil, hbyte, or_false] at h
      omega
    · simp only [List.mem_cons, List.not_mem_nil, hbyte, or_false] at h
      omega
  rw [← hc, hv]

theorem zero_not_mem_utf8 {s : String} (h : Char.ofNat 0 ∉ s.toList) : 0 ∉ utf8 s := by
  intro hmem
  obtain ⟨c, hc, hzero⟩ := List.mem_flatMap.mp hmem
  exact h (zero_mem_utf8EncodeChar hzero ▸ hc)

theorem utf8_eq_nil_iff {s : String} : utf8 s = [] ↔ s = "" := by
  rw [utf8, List.flatMap_eq_nil_iff, ← String.toList_eq_nil_iff, List.eq_nil_iff_forall_not_mem]
  simp

end DwarfUnits.Text
