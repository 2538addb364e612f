import DwarfUnits.Proofs.Bytes.Utf8
import Mathlib.Tactic.SplitIfs

/-! Text that bytes become: it has a zero character only where there is a zero byte, and is empty only
of no bytes. -/
namespace DwarfUnits.Text

/-- Whatever bytes in the expected ranges follow, they complete a character that is not zero. -/
def Completes : Nat → List Range → Prop
  | bits, [] => bits ≠ 0 ∧ bits.isValidChar
  | bits, r :: more => ∀ b, r.contains b = true → Completes (64 * bits + (b.toNat - 0x80)) more

/-- A byte in a range gives six bits between those of its ends. -/
theorem completes_cons (low high : Nat) {bits : Nat} {more : List Range} (hlow : low < 256)
    (hhigh : high < 256)
    (h : ∀ n, low - 0x80 ≤ n → n ≤ high - 0x80 → Completes (64 * bits + n) more) :
    Completes bits (⟨UInt8.ofNat low, UInt8.ofNat high⟩ :: more) := by
  intro b hb
  have hbyte : b = UInt8.ofNat b.toNat := UInt8.ofNat_toNat.symm
  rw [hbyte, contains_iff hlow hhigh b.toNat_lt] at hb
  exact h _ (by omega) (by omega)

theorem completes_tail {bits : Nat} {more : List Range}
    (h : ∀ n < 64, Completes (64 * bits + n) more) : Completes bits (.tail :: more) :=
  completes_cons 0x80 0xBF (by decide) (by decide) fun n _ hn => h n (by omega)

/-- One byte is missing, and no surrogate can come of it. -/
theorem completes_one {bits : Nat} (hpos : 0 < bits)
    (hvalid : bits < 0x360 ∨ 0x380 ≤ bits ∧ bits < 0x4400) : Completes bits [.tail] := by
  refine completes_tail fun n hn => ?_
  unfold Completes Nat.isValidChar
  omega

theorem completes_two {bits : Nat} (hpos : 0 < bits)
    (hvalid : bits < 0xD ∨ 0xE ≤ bits ∧ bits < 0x110) : Completes bits [.tail, .tail] :=
  completes_tail fun _ _ => completes_one (by omega) (by omega)

/-- A leading byte other than zero. -/
theorem leading_completes {n : Nat} (hn : n < 256) (hpos : 0 < n) {pending : Pending}
    (h : leading (UInt8.ofNat n) = some pending) : Completes pending.bits pending.expected := by
  rw [leading_ofNat hn] at h
  -- The leading bytes of one to four bytes; those that narrow the second byte stand apart.
  split_ifs at h <;> obtain rfl := Option.some.inj h <;> dsimp only
  · exact ⟨Nat.ne_of_gt hpos, Or.inl (by omega)⟩
  · exact completes_one (by omega) (by omega)
  · exact completes_cons 0xA0 0xBF (by decide) (by decide) fun _ _ _ =>
      completes_one (by omega) (by omega)
  · exact completes_cons 0x80 0x9F (by decide) (by decide) fun _ _ _ =>
      completes_one (by omega) (by omega)
  · exact completes_two (by omega) (by omega)
  · exact completes_cons 0x90 0xBF (by decide) (by decide) fun _ _ _ =>
      completes_two (by omega) (by omega)
  · exact completes_tail fun _ _ => completes_two (by omega) (by omega)
  · exact completes_cons 0x80 0x8F (by decide) (by decide) fun _ _ _ =>
      completes_two (by omega) (by omega)

theorem ofNat_ne_zero {n : Nat} (h : Completes n []) : Char.ofNat n ≠ Char.ofNat 0 := by
  have hnat : (Char.ofNat n).toNat = n := by
    rw [Char.ofNat, dif_pos h.2]
    rfl
  intro heq
  rw [heq] at hnat
  exact h.1 hnat.symm

/-- What is open of a character can be completed only to one that is not zero. -/
def Sound (pending : Option Pending) : Prop :=
  ∀ p ∈ pending, Completes p.bits p.expected

theorem start_sound {b : UInt8} (hb : b ≠ 0) :
    Char.ofNat 0 ∉ (start b).1 ∧ Sound (start b).2 := by
  have hbyte : UInt8.ofNat b.toNat = b := UInt8.ofNat_toNat
  have hpos : 0 < b.toNat := by
    rw [ne_eq, ← UInt8.toNat_inj] at hb
    exact Nat.pos_of_ne_zero hb
  have hlead : ∀ p ∈ leading b, Completes p.bits p.expected := by
    intro p hp
    rw [← hbyte] at hp
    exact leading_completes b.toNat_lt hpos hp
  unfold start
  split
  · exact ⟨by decide, by simp [Sound]⟩
  · rename_i bits h
    exact ⟨by simpa using (ofNat_ne_zero (hlead _ h)).symm, by simp [Sound]⟩
  · rename_i p _ h
    refine ⟨by simp, fun q hq => ?_⟩
    obtain rfl := Option.some.inj hq
    exact hlead _ h

theorem step_sound {pending : Option Pending} (h : Sound pending) {b : UInt8} (hb : b ≠ 0) :
    Char.ofNat 0 ∉ (step pending b).1 ∧ Sound (step pending b).2 := by
  obtain ⟨hchars, hopen⟩ := start_sound hb
  unfold step
  split
  · rename_i bits r more
    have hrange := h _ rfl
    split
    · rename_i hcontains
      have hnext := hrange b hcontains
      cases more with
      | nil => exact ⟨by simpa using (ofNat_ne_zero hnext).symm, by simp [Sound]⟩
      | cons r' more =>
        refine ⟨by simp, fun q hq => ?_⟩
        obtain rfl := Option.some.inj hq
        exact hnext
    · refine ⟨?_, hopen⟩
      rw [List.mem_cons, not_or]
      exact ⟨by decide, hchars⟩
  · exact ⟨hchars, hopen⟩

theorem zero_not_mem_charsFrom {bytes : List UInt8} (hbytes : 0 ∉ bytes) {pending : Option Pending}
    (h : Sound pending) : Char.ofNat 0 ∉ charsFrom pending bytes := by
  induction bytes generalizing pending with
  | nil => cases pending <;> simp [charsFrom]; decide
  | cons b bytes ih =>
    rw [List.mem_cons, not_or] at hbytes
    obtain ⟨hchars, hopen⟩ := step_sound h (Ne.symm hbytes.1)
    rw [charsFrom_cons, List.mem_append, not_or]
    exact ⟨hchars, ih hbytes.2 hopen⟩

theorem zero_not_mem_ofBytes {bytes : List UInt8} (h : 0 ∉ bytes) :
    Char.ofNat 0 ∉ (ofBytes bytes).toList := by
  rw [ofBytes, String.toList_ofList]
  exact zero_not_mem_charsFrom h (by simp [Sound])

theorem start_ne_nil (b : UInt8) : (start b).1 ≠ [] ∨ (start b).2 ≠ none := by
  unfold start
  split <;> simp

/-- A byte completes a character or leaves one open. -/
theorem step_ne_nil (pending : Option Pending) (b : UInt8) :
    (step pending b).1 ≠ [] ∨ (step pending b).2 ≠ none := by
  unfold step
  split
  · split
    · split <;> simp
    · simp
  · exact start_ne_nil b

theorem charsFrom_ne_nil {bytes : List UInt8} {pending : Option Pending}
    (h : bytes ≠ [] ∨ pending ≠ none) : charsFrom pending bytes ≠ [] := by
  induction bytes generalizing pending with
  | nil => cases pending <;> simp [charsFrom] at h ⊢
  | cons b bytes ih =>
    rw [charsFrom_cons, ne_eq, List.append_eq_nil_iff, not_and]
    intro hchars
    exact ih (Or.inr ((step_ne_nil pending b).resolve_left (not_not_intro hchars)))

theorem ofBytes_ne_empty {bytes : List UInt8} (h : bytes ≠ []) : ofBytes bytes ≠ "" := by
  rw [ofBytes, ne_eq, ← String.toList_eq_nil_iff, String.toList_ofList]
  exact charsFrom_ne_nil (Or.inl h)

end DwarfUnits.Text
