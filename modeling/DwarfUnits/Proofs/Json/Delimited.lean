import DwarfUnits.Json
import Mathlib.Logic.Function.Basic
import Mathlib.Tactic.SplitIfs
import Mathlib.Tactic.TypeStar

/-! Written JSON says what was written and where it ends: a text that goes on after a value gives
back the value and the rest, in either layout. -/
namespace DwarfUnits

/-- A run of `p` ends where the next element is not one of `p`. -/
theorem run_append_inj {α : Type} {p : α → Prop} [DecidablePred p] {xs ys r₁ r₂ : List α}
    (hxs : ∀ x ∈ xs, p x) (hys : ∀ y ∈ ys, p y) (h₁ : ∀ x ∈ r₁.head?, ¬p x)
    (h₂ : ∀ x ∈ r₂.head?, ¬p x) (h : xs ++ r₁ = ys ++ r₂) : xs = ys ∧ r₁ = r₂ := by
  have htake {zs r : List α} (hzs : ∀ z ∈ zs, p z) (hr : ∀ x ∈ r.head?, ¬p x) :
      (zs ++ r).takeWhile (fun z => decide (p z)) = zs := by
    rw [List.takeWhile_append_of_pos (by simpa using hzs)]
    cases r with
    | nil => simp
    | cons x r => simp [hr x rfl]
  have hsame : xs = ys := by rw [← htake hxs h₁, h, htake hys h₂]
  rw [hsame] at h
  exact ⟨hsame, List.append_cancel_left h⟩

/-- Whether something is left out can be told where what follows is not of its kind. -/
theorem optional_append_inj {α β : Type} {f : α → β} (hf : Function.Injective f) {p : β → Prop}
    (hp : ∀ a, p (f a)) {value value' : Option α} {rest rest' : List β}
    (hrest : ∀ x ∈ rest.head?, ¬p x) (hrest' : ∀ x ∈ rest'.head?, ¬p x)
    (h : (value.map f).toList ++ rest = (value'.map f).toList ++ rest') :
    value = value' ∧ rest = rest' := by
  cases value with
  | none =>
    cases value' with
    | none => exact ⟨rfl, h⟩
    | some a' =>
      obtain rfl : rest = f a' :: rest' := h
      exact absurd (hp a') (hrest _ rfl)
  | some a =>
    cases value' with
    | none =>
      obtain rfl : f a :: rest = rest' := h
      exact absurd (hp a) (hrest' _ rfl)
    | some a' =>
      obtain ⟨hsame, hrest⟩ := List.cons.inj h
      exact ⟨congrArg some (hf hsame), hrest⟩

namespace Json

/-- The number that a hexadecimal digit stands for. -/
def digitValue (c : Char) : Nat :=
  ['0', '1', '2', '3', '4', '5', '6', '7', '8', '9', 'a', 'b', 'c', 'd', 'e', 'f'].idxOf c

theorem digitValue_digitChar : ∀ d < 16, digitValue (Nat.digitChar d) = d := by decide

/-- The character that the text after a backslash stands for, and the rest of the text. -/
def unescapeNamed : List Char → Option (Char × List Char)
  | 'u' :: _ :: _ :: high :: low :: rest =>
    some (Char.ofNat (16 * digitValue high + digitValue low), rest)
  | 'b' :: rest => some ('\x08', rest)
  | 't' :: rest => some ('\t', rest)
  | 'n' :: rest => some ('\n', rest)
  | 'f' :: rest => some ('\x0c', rest)
  | 'r' :: rest => some ('\r', rest)
  | c :: rest => some (c, rest)
  | [] => none

/-- The first character of the text inside quotes, and the rest; a quote ends the text. -/
def unescape : List Char → Option (Char × List Char)
  | [] => none
  | c :: rest =>
    if c = '"' then none else if c = '\\' then unescapeNamed rest else some (c, rest)

theorem unescape_quote (rest : List Char) : unescape ('"' :: rest) = none := rfl

theorem unescape_escape_append (c : Char) (rest : List Char) :
    unescape (escape c ++ rest) = some (c, rest) := by
  unfold escape
  split_ifs with hquote hbackslash hb ht hn hf hr hcontrol
  · rw [hquote]; rfl
  · rw [hbackslash]; rfl
  · rw [hb]; rfl
  · rw [ht]; rfl
  · rw [hn]; rfl
  · rw [hf]; rfl
  · rw [hr]; rfl
  · have hhigh := digitValue_digitChar (c.toNat / 16) (by omega)
    have hlow := digitValue_digitChar (c.toNat % 16) (by omega)
    have hvalue : Char.ofNat (16 * (c.toNat / 16) + c.toNat % 16) = c := by
      rw [Nat.div_add_mod, Char.ofNat_toNat]
    simp [unescape, unescapeNamed, hhigh, hlow, hvalue]
  · simp [unescape, hquote, hbackslash]

/-- Escaped characters before a closing quote are told apart from each other and from the rest. -/
theorem flatMap_escape_inj {cs ds r₁ r₂ : List Char}
    (h : cs.flatMap escape ++ '"' :: r₁ = ds.flatMap escape ++ '"' :: r₂) :
    cs = ds ∧ r₁ = r₂ := by
  induction cs generalizing ds with
  | nil =>
    cases ds with
    | nil => simpa using h
    | cons d ds =>
      have hread := congrArg unescape h
      simp [unescape_escape_append, unescape_quote] at hread
  | cons c cs ih =>
    have hread := congrArg unescape h
    cases ds with
    | nil => simp [unescape_escape_append, unescape_quote] at hread
    | cons d ds =>
      simp only [List.flatMap_cons, List.append_assoc, unescape_escape_append, Option.some.injEq,
        Prod.mk.injEq] at hread
      obtain ⟨rfl, hrest⟩ := hread
      obtain ⟨rfl, hsame⟩ := ih hrest
      exact ⟨rfl, hsame⟩

theorem toList_quote (s : String) :
    (quote s).toList = '"' :: (s.toList.flatMap escape ++ ['"']) := by
  simp [quote]

theorem quote_append_inj {s t : String} {r₁ r₂ : List Char}
    (h : (quote s).toList ++ r₁ = (quote t).toList ++ r₂) : s = t ∧ r₁ = r₂ := by
  simp only [toList_quote, List.cons_append, List.append_assoc, List.nil_append,
    List.cons.injEq, true_and] at h
  obtain ⟨hchars, hrest⟩ := flatMap_escape_inj h
  exact ⟨String.toList_inj.mp hchars, hrest⟩

/-- No digit follows, so a number before the text has come to its end. -/
def Ends (rest : List Char) : Prop := ∀ c ∈ rest.head?, c.isDigit = false

/-- Neither a digit nor a comma follows, so a list of items has come to its end. -/
def Closes (rest : List Char) : Prop := ∀ c ∈ rest.head?, c.isDigit = false ∧ c ≠ ','

theorem Closes.ends {rest : List Char} (h : Closes rest) : Ends rest := fun c hc => (h c hc).1

theorem toList_toString (n : Nat) : (toString n).toList = Nat.toDigits 10 n := by
  rw [Nat.toString_eq_repr, Nat.toList_repr]

theorem toString_append_inj {n m : Nat} {r₁ r₂ : List Char} (h₁ : Ends r₁) (h₂ : Ends r₂)
    (h : (toString n).toList ++ r₁ = (toString m).toList ++ r₂) : n = m ∧ r₁ = r₂ := by
  have hdigits (n : Nat) : ∀ c ∈ Nat.toDigits 10 n, c.isDigit = true :=
    fun c hc => Nat.isDigit_of_mem_toDigits (by decide) (by decide) hc
  rw [toList_toString, toList_toString] at h
  obtain ⟨hsame, hrest⟩ := run_append_inj (hdigits n) (hdigits m) (fun c hc => by simp [h₁ c hc])
    (fun c hc => by simp [h₂ c hc]) h
  refine ⟨?_, hrest⟩
  rw [← Nat.ofDigitChars_ten_toDigits (n := n), hsame, Nat.ofDigitChars_ten_toDigits]

section Lists

variable {α : Type*} {write : α → String} {a : α} {layout : Layout}

/-- A text that starts with the written `a` starts with nothing else that is written, and `a` ends
at one place in it. -/
def Delimits (write : α → String) (a : α) : Prop :=
  ∀ b r₁ r₂, Ends r₁ → Ends r₂ → (write a).toList ++ r₁ = (write b).toList ++ r₂ →
    a = b ∧ r₁ = r₂

theorem Delimits.after (text : String) (h : Delimits write a) :
    Delimits (fun b => text ++ write b) a := by
  intro b r₁ r₂ h₁ h₂ heq
  simp only [String.toList_append, List.append_assoc] at heq
  exact h b r₁ r₂ h₁ h₂ (List.append_cancel_left heq)

/-- Items, each after a comma. -/
def commas (items : List String) : List Char := items.flatMap fun item => ',' :: item.toList

theorem toList_intercalate_cons (item : String) (items : List String) :
    (String.intercalate "," (item :: items)).toList = item.toList ++ commas items := by
  induction items generalizing item with
  | nil => simp [commas]
  | cons next items ih => simp [String.intercalate_cons_cons, ih, commas]

theorem ends_commas_append {items : List String} {rest : List Char} (h : Closes rest) :
    Ends (commas items ++ rest) := by
  cases items with
  | nil => exact h.ends
  | cons item items =>
    intro c hc
    obtain rfl : ',' = c := by simpa [commas] using hc
    rfl

theorem commas_inj {xs ys : List α} (hxs : ∀ x ∈ xs, Delimits write x) {r₁ r₂ : List Char}
    (h₁ : Closes r₁) (h₂ : Closes r₂)
    (h : commas (xs.map write) ++ r₁ = commas (ys.map write) ++ r₂) : xs = ys ∧ r₁ = r₂ := by
  induction xs generalizing ys with
  | nil =>
    cases ys with
    | nil => exact ⟨rfl, h⟩
    | cons y ys =>
      obtain rfl : r₁ = ',' :: ((write y).toList ++ (commas (ys.map write) ++ r₂)) := by
        simpa [commas] using h
      exact absurd rfl (h₁ ',' rfl).2
  | cons x xs ih =>
    cases ys with
    | nil =>
      obtain rfl : ',' :: ((write x).toList ++ (commas (xs.map write) ++ r₁)) = r₂ := by
        simpa [commas] using h
      exact absurd rfl (h₂ ',' rfl).2
    | cons y ys =>
      have hitems : (write x).toList ++ (commas (xs.map write) ++ r₁) =
          (write y).toList ++ (commas (ys.map write) ++ r₂) := by
        simpa [commas] using h
      obtain ⟨rfl, hrest⟩ := hxs x (by simp) y _ _ (ends_commas_append h₁)
        (ends_commas_append h₂) hitems
      obtain ⟨rfl, hsame⟩ := ih (fun x hx => hxs x (by simp [hx])) hrest
      exact ⟨rfl, hsame⟩

/-- The closing brackets. -/
def IsClosing (bracket : Char) : Prop := bracket = ']' ∨ bracket = '\x7d'

theorem closes_gap_append (layout : Layout) {bracket : Char} (hbracket : IsClosing bracket)
    (rest : List Char) : Closes (layout.gap.toList ++ bracket :: rest) := by
  cases layout with
  | indented depth =>
    intro c hc
    obtain rfl : '\n' = c := by simpa [Layout.gap] using hc
    decide
  | compact =>
    intro c hc
    obtain rfl : bracket = c := by simpa [Layout.gap] using hc
    rcases hbracket with rfl | rfl <;> decide

/-- The text is not empty and does not start like a closing bracket. -/
def IsItem (text : String) : Prop := ∃ c rest, text.toList = c :: rest ∧ ¬IsClosing c

theorem closing_ne_gap_append {bracket c : Char} (hbracket : IsClosing bracket) (hc : ¬IsClosing c)
    (r₁ r₂ : List Char) : bracket :: r₁ ≠ layout.inner.gap.toList ++ c :: r₂ := by
  intro h
  cases layout with
  | indented depth =>
    have hnewline : bracket = '\n' := by
      simpa [Layout.inner, Layout.gap] using congrArg List.head? h
    rcases hbracket with rfl | rfl <;> cases hnewline
  | compact =>
    have hsame : bracket = c := by
      simpa [Layout.inner, Layout.gap] using congrArg List.head? h
    exact hc (hsame ▸ hbracket)

theorem toList_enclose_nil (opening closing : String) :
    (layout.enclose opening closing []).toList = opening.toList ++ closing.toList :=
  String.toList_append

theorem toList_enclose_cons (opening closing item : String) (items : List String) :
    (layout.enclose opening closing (item :: items)).toList =
      opening.toList ++ (layout.inner.gap.toList ++ (item.toList ++
        (commas (items.map (layout.inner.gap ++ ·)) ++
          (layout.gap.toList ++ closing.toList)))) := by
  simp only [Layout.enclose, List.map_cons, String.toList_append, toList_intercalate_cons,
    List.append_assoc]

section Brackets

variable {opening closing : String} {bracket : Char}

/-- The closing bracket of an empty list is not taken for an item. -/
theorem enclose_nil_append_ne (hclosing : closing.toList = [bracket]) (hbracket : IsClosing bracket)
    {item : String} (hitem : IsItem item) (items : List String) (r₁ r₂ : List Char) :
    (layout.enclose opening closing []).toList ++ r₁ ≠
      (layout.enclose opening closing (item :: items)).toList ++ r₂ := by
  intro h
  obtain ⟨c, rest, hfirst, hc⟩ := hitem
  rw [toList_enclose_nil, toList_enclose_cons, hclosing, hfirst] at h
  simp only [List.append_assoc, List.cons_append, List.nil_append] at h
  exact closing_ne_gap_append hbracket hc _ _ (List.append_cancel_left h)

/-- Items between brackets delimit a list. -/
theorem delimits_enclose (layout : Layout) (opening : String)
    (hclosing : closing.toList = [bracket]) (hbracket : IsClosing bracket)
    (hitems : ∀ x, IsItem (write x)) {xs : List α} (hxs : ∀ x ∈ xs, Delimits write x) :
    Delimits (fun items => layout.enclose opening closing (items.map write)) xs := by
  intro ys r₁ r₂ h₁ h₂ h
  cases xs with
  | nil =>
    cases ys with
    | nil => exact ⟨rfl, List.append_cancel_left h⟩
    | cons y ys => exact absurd h (enclose_nil_append_ne hclosing hbracket (hitems y) _ _ _)
  | cons x xs =>
    cases ys with
    | nil => exact absurd h.symm (enclose_nil_append_ne hclosing hbracket (hitems x) _ _ _)
    | cons y ys =>
      simp only [List.map_cons, toList_enclose_cons, hclosing, List.append_assoc, List.cons_append,
        List.nil_append, List.map_map] at h
      have hfirst := List.append_cancel_left (List.append_cancel_left h)
      have hgap := closes_gap_append layout hbracket
      obtain ⟨rfl, hrest⟩ := hxs x (by simp) y _ _ (ends_commas_append (hgap r₁))
        (ends_commas_append (hgap r₂)) hfirst
      have hlater : ∀ x ∈ xs, Delimits (fun x => layout.inner.gap ++ write x) x :=
        fun x hx => (hxs x (by simp [hx])).after _
      obtain ⟨rfl, hends⟩ := commas_inj hlater (hgap r₁) (hgap r₂) hrest
      have hsame := List.append_cancel_left hends
      exact ⟨rfl, (List.cons.inj hsame).2⟩

end Brackets
end Lists

/-- What a value is, up to what is in it. -/
inductive Kind where
  | number
  | flag
  | string
  | array
  | object

def kind : Json → Kind
  | number _ => .number
  | flag _ => .flag
  | string _ => .string
  | array _ => .array
  | object _ => .object

/-- The kind of value that starts with a character. -/
def kindOf? (c : Char) : Option Kind :=
  if c.isDigit then some .number
  else if c = 't' ∨ c = 'f' then some .flag
  else if c = '"' then some .string
  else if c = '[' then some .array
  else if c = '\x7b' then some .object
  else none

theorem exists_toList_enclose (layout : Layout) (opening closing : String) (items : List String) :
    ∃ rest, (layout.enclose opening closing items).toList = opening.toList ++ rest := by
  cases items with
  | nil => exact ⟨_, toList_enclose_nil ..⟩
  | cons item items => exact ⟨_, toList_enclose_cons ..⟩

/-- The first character of a value tells its kind. -/
theorem exists_toList_write (layout : Layout) (v : Json) :
    ∃ c rest, (write layout v).toList = c :: rest ∧ kindOf? c = some v.kind := by
  cases v with
  | number n =>
    cases hdigits : Nat.toDigits 10 n with
    | nil => exact absurd hdigits Nat.toDigits_ne_nil
    | cons c rest =>
      have hdigit : c.isDigit = true :=
        Nat.isDigit_of_mem_toDigits (by decide) (by decide) (hdigits ▸ List.mem_cons_self)
      refine ⟨c, rest, ?_, by simp [kindOf?, kind, hdigit]⟩
      rw [write, toList_toString, hdigits]
  | flag b =>
    cases b with
    | false => exact ⟨'f', "alse".toList, by simp [write], rfl⟩
    | true => exact ⟨'t', "rue".toList, by simp [write], rfl⟩
  | string s => exact ⟨_, _, toList_quote s, rfl⟩
  | array items =>
    obtain ⟨rest, hrest⟩ := exists_toList_enclose layout "[" "]" (writeItems layout.inner items)
    exact ⟨'[', rest, by rw [write, hrest]; rfl, rfl⟩
  | object fields =>
    obtain ⟨rest, hrest⟩ :=
      exists_toList_enclose layout "\x7b" "\x7d" (writeFields layout.inner fields)
    exact ⟨'\x7b', rest, by rw [write, hrest]; rfl, rfl⟩

theorem kind_eq_of_append_eq {layout : Layout} {v w : Json} {r₁ r₂ : List Char}
    (h : (write layout v).toList ++ r₁ = (write layout w).toList ++ r₂) : v.kind = w.kind := by
  obtain ⟨c, rest, hv, hkind⟩ := exists_toList_write layout v
  obtain ⟨c', rest', hw, hkind'⟩ := exists_toList_write layout w
  rw [hv, hw] at h
  obtain ⟨rfl, -⟩ := List.cons.inj h
  exact Option.some.inj (hkind.symm.trans hkind')

theorem isItem_write (layout : Layout) (v : Json) : IsItem (write layout v) := by
  obtain ⟨c, rest, hv, hkind⟩ := exists_toList_write layout v
  refine ⟨c, rest, hv, ?_⟩
  rintro (rfl | rfl) <;> cases hkind

theorem isItem_writeField (layout : Layout) : ∀ field, IsItem (writeField layout field)
  | (key, value) => by
    have hfirst : (writeField layout (key, value)).toList =
        '"' :: (key.toList.flatMap escape ++ ['"'] ++ layout.colon.toList ++
          (write layout value).toList) := by
      simp [writeField, toList_quote]
    refine ⟨'"', _, hfirst, ?_⟩
    rintro (h | h) <;> cases h

theorem writeItems_eq_map (layout : Layout) (items : List Json) :
    writeItems layout items = items.map (write layout) := by
  induction items with
  | nil => rfl
  | cons item rest ih => simp [writeItems, ih]

theorem writeFields_eq_map (layout : Layout) (fields : List (String × Json)) :
    writeFields layout fields = fields.map (writeField layout) := by
  induction fields with
  | nil => rfl
  | cons field rest ih => simp [writeFields, ih]

-- One theorem for each of the functions that write. Only values of one kind need to be compared,
-- since the first character tells the kind.
mutual

theorem delimits_write (layout : Layout) : ∀ v, Delimits (write layout) v
  | .number n => by
    intro w r₁ r₂ h₁ h₂ h
    cases w with
    | number m =>
      obtain ⟨rfl, hrest⟩ := toString_append_inj h₁ h₂ h
      exact ⟨rfl, hrest⟩
    | _ => cases kind_eq_of_append_eq h
  | .flag b => by
    intro w r₁ r₂ h₁ h₂ h
    cases w with
    | flag c =>
      cases b <;> cases c <;> simp_all [write]
    | _ => cases kind_eq_of_append_eq h
  | .string s => by
    intro w r₁ r₂ h₁ h₂ h
    cases w with
    | string t =>
      obtain ⟨rfl, hrest⟩ := quote_append_inj h
      exact ⟨rfl, hrest⟩
    | _ => cases kind_eq_of_append_eq h
  | .array items => by
    intro w r₁ r₂ h₁ h₂ h
    cases w with
    | array others =>
      have hitems := delimits_enclose layout "[" (by decide : "]".toList = [']'])
        (.inl rfl) (isItem_write layout.inner) (delimits_items layout.inner items)
      simp only [write, writeItems_eq_map] at h
      obtain ⟨rfl, hrest⟩ := hitems others r₁ r₂ h₁ h₂ h
      exact ⟨rfl, hrest⟩
    | _ => cases kind_eq_of_append_eq h
  | .object fields => by
    intro w r₁ r₂ h₁ h₂ h
    cases w with
    | object others =>
      have hfields := delimits_enclose layout "\x7b" (by decide : "\x7d".toList = ['\x7d'])
        (.inr rfl) (isItem_writeField layout.inner) (delimits_fields layout.inner fields)
      simp only [write, writeFields_eq_map] at h
      obtain ⟨rfl, hrest⟩ := hfields others r₁ r₂ h₁ h₂ h
      exact ⟨rfl, hrest⟩
    | _ => cases kind_eq_of_append_eq h

theorem delimits_items (layout : Layout) :
    ∀ items : List Json, ∀ v ∈ items, Delimits (write layout) v
  | [] => nofun
  | item :: rest =>
    List.forall_mem_cons.mpr ⟨delimits_write layout item, delimits_items layout rest⟩

theorem delimits_fields (layout : Layout) :
    ∀ fields : List (String × Json), ∀ field ∈ fields, Delimits (writeField layout) field
  | [] => nofun
  | field :: rest =>
    List.forall_mem_cons.mpr ⟨delimits_writeField layout field, delimits_fields layout rest⟩

theorem delimits_writeField (layout : Layout) : ∀ field, Delimits (writeField layout) field
  | (key, value) => by
    rintro ⟨key', value'⟩ r₁ r₂ h₁ h₂ h
    simp only [writeField, String.toList_append, List.append_assoc] at h
    obtain ⟨rfl, hcolon⟩ := quote_append_inj h
    obtain ⟨rfl, hrest⟩ := delimits_write layout value value' r₁ r₂ h₁ h₂
      (List.append_cancel_left hcolon)
    exact ⟨rfl, hrest⟩

end

/-- Different values are written differently. -/
theorem write_injective (layout : Layout) : Function.Injective (write layout) := by
  intro v w h
  have hends : Ends [] := nofun
  exact (delimits_write layout v w [] [] hends hends (by rw [h])).1

theorem pretty_injective : Function.Injective pretty := write_injective (.indented 0)

end Json
end DwarfUnits
