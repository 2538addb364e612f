import DwarfUnits.Proofs.Json.Delimited
import DwarfUnits.Report.Text
import Mathlib.Data.List.Basic
import Mathlib.Data.List.Forall2
import Mathlib.Data.Option.Basic

/-! The listing of a report tells apart whatever it is meant to show: indentation and keys alone say
where each text stands, and no text on one line can stand for a line of another kind. -/
namespace DwarfUnits

section Lines

variable {key other heading line : String} {lines lines' rest rest' : List String}

/-- The line starts with `key`. -/
def Starts (key line : String) : Prop := key.toList <+: line.toList

instance (key line : String) : Decidable (Starts key line) :=
  inferInstanceAs (Decidable (key.toList <+: line.toList))

theorem starts_append (key value : String) : Starts key (key ++ value) := by
  rw [Starts, String.toList_append]
  exact List.prefix_append ..

theorem Starts.trans (h : Starts key other) (h' : Starts other line) : Starts key line :=
  List.IsPrefix.trans h h'

/-- Of two keys that are not the beginning of each other, a line starts with one only. -/
theorem Starts.not_starts (h : Starts other line) (hkey : ¬Starts key other)
    (hother : ¬Starts other key) : ¬Starts key line := by
  intro hstarts
  obtain hboth | hboth := List.prefix_or_prefix_of_prefix hstarts h
  · exact hkey hboth
  · exact hother hboth

/-- The text has no line feed in it. -/
def OneLine (s : String) : Prop := '\n' ∉ s.toList

instance (s : String) : Decidable (OneLine s) := inferInstanceAs (Decidable ('\n' ∉ s.toList))

theorem OneLine.append {s t : String} (h : OneLine s) (h' : OneLine t) : OneLine (s ++ t) := by
  rw [OneLine, String.toList_append, List.mem_append, not_or]
  exact ⟨h, h'⟩

theorem oneLine_toString (n : Nat) : OneLine (toString n) := by
  intro hmem
  rw [Json.toList_toString] at hmem
  have hdigit : Char.isDigit '\n' = true := Nat.isDigit_of_mem_toDigits (by decide) (by decide) hmem
  exact absurd hdigit (by decide)

theorem toList_unlines_cons (line : String) (lines : List String) :
    (unlines (line :: lines)).toList = line.toList ++ '\n' :: (unlines lines).toList := by
  simp [unlines, String.toList_join]

/-- Lines end at line feeds and nowhere else. -/
theorem unlines_inj (h : ∀ line ∈ lines, OneLine line) (h' : ∀ line ∈ lines', OneLine line)
    (heq : unlines lines = unlines lines') : lines = lines' := by
  have hnil (line : String) (lines : List String) : unlines [] ≠ unlines (line :: lines) := by
    intro hnil
    have hchars := congrArg String.toList hnil
    rw [toList_unlines_cons] at hchars
    simp [unlines, String.join] at hchars
  -- On the lines: the first line feed ends the first line of both texts.
  induction lines generalizing lines' with
  | nil =>
    cases lines' with
    | nil => rfl
    | cons line' lines' => exact absurd heq (hnil line' lines')
  | cons line lines ih =>
    cases lines' with
    | nil => exact absurd heq.symm (hnil line lines)
    | cons line' lines' =>
      rw [List.forall_mem_cons] at h h'
      rw [← String.toList_inj, toList_unlines_cons, toList_unlines_cons] at heq
      obtain ⟨hline, hrest⟩ := run_append_inj (fun c hc => ne_of_mem_of_not_mem hc h.1)
        (fun c hc => ne_of_mem_of_not_mem hc h'.1) (by simp) (by simp) heq
      rw [String.toList_inj.mp hline, ih h.2 h'.2 (String.toList_inj.mp (List.cons.inj hrest).2)]

/-- Blocks that each start where `p` ends are told apart. -/
theorem forall₂_of_flatMap_eq {α β : Type} {p : β → Prop} [DecidablePred p] {head : α → β}
    {tail : α → List β} {xs ys : List α} (hhead : ∀ a, ¬p (head a)) (hxs : ∀ x ∈ xs, ∀ b ∈ tail x, p b)
    (hys : ∀ y ∈ ys, ∀ b ∈ tail y, p b)
    (h : xs.flatMap (fun x => head x :: tail x) = ys.flatMap fun y => head y :: tail y) :
    List.Forall₂ (fun x y => head x = head y ∧ tail x = tail y) xs ys := by
  have hnext (zs : List α) : ∀ b ∈ (zs.flatMap fun z => head z :: tail z).head?, ¬p b := by
    cases zs with
    | nil => simp
    | cons z zs => simpa using hhead z
  -- On the blocks: the first ends where the next one starts, or where all end.
  induction xs generalizing ys with
  | nil =>
    cases ys with
    | nil => exact .nil
    | cons y ys => simp at h
  | cons x xs ih =>
    cases ys with
    | nil => simp at h
    | cons y ys =>
      rw [List.forall_mem_cons] at hxs hys
      rw [List.flatMap_cons, List.flatMap_cons, List.cons_append, List.cons_append,
        List.cons.injEq] at h
      obtain ⟨htail, hrest⟩ := run_append_inj hxs.1 hys.1 (hnext xs) (hnext ys) h.2
      exact .cons ⟨h.1, htail⟩ (ih hxs.2 hys.2 hrest)

/-- A line inside a unit. -/
structure Indented (line : String) : Prop where
  starts : Starts "  " line
  oneLine : OneLine line

theorem Indented.append {value : String} (h : Indented key) (hvalue : OneLine value) :
    Indented (key ++ value) :=
  ⟨h.starts.trans (starts_append key value), h.oneLine.append hvalue⟩

theorem indented_optionalLine {value : Option String} (hkey : Indented key)
    (hvalue : ∀ s ∈ value, OneLine s) : ∀ line ∈ optionalLine key value, Indented line := by
  intro line hline
  obtain ⟨s, hs, rfl⟩ : ∃ s, value = some s ∧ key ++ s = line := by simpa [optionalLine] using hline
  exact hkey.append (hvalue s hs)

theorem indented_headed (hheading : Indented heading) (hlines : ∀ line ∈ lines, Indented line) :
    ∀ line ∈ headed heading lines, Indented line := by
  unfold headed
  split
  · simp
  · exact List.forall_mem_cons.mpr ⟨hheading, hlines⟩

/-- Whether a line is left out can be told where the next one does not start like it. -/
theorem optionalLine_append_inj {value value' : Option String}
    (hrest : ∀ line ∈ rest.head?, ¬Starts key line) (hrest' : ∀ line ∈ rest'.head?, ¬Starts key line)
    (h : optionalLine key value ++ rest = optionalLine key value' ++ rest') :
    value = value' ∧ rest = rest' :=
  optional_append_inj (fun _ _ => (String.append_right_inj key).mp) (starts_append key) hrest hrest' h

/-- Whether a heading is left out, and where the lines under it end, can be told by the next line. -/
theorem headed_append_inj {p : String → Prop} [DecidablePred p] (hlines : ∀ line ∈ lines, p line)
    (hlines' : ∀ line ∈ lines', p line) (hrest : ∀ line ∈ rest.head?, line ≠ heading ∧ ¬p line)
    (hrest' : ∀ line ∈ rest'.head?, line ≠ heading ∧ ¬p line)
    (h : headed heading lines ++ rest = headed heading lines' ++ rest') :
    lines = lines' ∧ rest = rest' := by
  cases lines with
  | nil =>
    cases lines' with
    | nil => exact ⟨rfl, h⟩
    | cons line' lines' =>
      obtain rfl : rest = heading :: (line' :: lines' ++ rest') := h
      exact absurd rfl (hrest heading rfl).1
  | cons line lines =>
    cases lines' with
    | nil =>
      obtain rfl : heading :: (line :: lines ++ rest) = rest' := h
      exact absurd rfl (hrest' heading rfl).1
    | cons line' lines' =>
      have htail : line :: lines ++ rest = line' :: lines' ++ rest' := (List.cons.inj h).2
      exact run_append_inj hlines hlines' (fun line hline => (hrest line hline).2)
        (fun line hline => (hrest' line hline).2) htail

theorem forall_head?_optionalLine_append {P : String → Prop} {value : Option String}
    (hvalue : ∀ s, P (key ++ s)) (hrest : ∀ line ∈ rest.head?, P line) :
    ∀ line ∈ (optionalLine key value ++ rest).head?, P line := by
  cases value with
  | none => exact hrest
  | some s =>
    rintro _ ⟨⟩
    exact hvalue s

theorem forall_head?_headed_append {P : String → Prop} (hheading : P heading)
    (hrest : ∀ line ∈ rest.head?, P line) :
    ∀ line ∈ (headed heading lines ++ rest).head?, P line := by
  cases lines with
  | nil => exact hrest
  | cons line lines =>
    rintro _ ⟨⟩
    exact hheading

theorem append_toString_inj {n m : Nat} (h : key ++ toString n = key ++ toString m) : n = m := by
  have hends : Json.Ends [] := by simp [Json.Ends]
  have hdigits : (toString n).toList = (toString m).toList := by
    rw [(String.append_right_inj key).mp h]
  exact (Json.toString_append_inj hends hends (congrArg (· ++ []) hdigits)).1

end Lines

/-- The texts of a line table stand on one line each. -/
structure LineTableRecord.OneLined (t : LineTableRecord) : Prop where
  directories : ∀ directory ∈ t.directories, OneLine directory
  paths : ∀ file ∈ t.files, OneLine file.path

structure UnitRecord.OneLined (u : UnitRecord) : Prop where
  name : ∀ name ∈ u.name, OneLine name
  compDir : ∀ compDir ∈ u.compDir, OneLine compDir
  lineTable : ∀ table ∈ u.lineTable, table.OneLined

/-- The same in all that the listing is meant to show. Of a status that is whether the header has
another length than it declares, and both lengths. -/
structure LineTableRecord.Alike (t t' : LineTableRecord) : Prop where
  offset : t.offset = t'.offset
  version : t.version = t'.version
  directories : t.directories = t'.directories
  files : t.files = t'.files
  status : ∀ declared consumed, t.status = .headerLengthMismatch declared consumed ∨
    t'.status = .headerLengthMismatch declared consumed → t.status = t'.status

structure UnitRecord.Alike (u u' : UnitRecord) : Prop where
  offset : u.offset = u'.offset
  abbrevOffset : u.abbrevOffset = u'.abbrevOffset
  name : u.name = u'.name
  compDir : u.compDir = u'.compDir
  lineTable : Option.Rel LineTableRecord.Alike u.lineTable u'.lineTable

/-- What may stand under a heading: a line that opens an item or goes on with one. -/
def Item (line : String) : Prop := Starts "  - " line ∨ Starts "    " line

instance : DecidablePred Item := fun line =>
  inferInstanceAs (Decidable (Starts "  - " line ∨ Starts "    " line))

theorem Starts.not_item {key line : String} (h : Starts key line)
    (hopens : ¬Starts "  - " key ∧ ¬Starts key "  - ")
    (hgoesOn : ¬Starts "    " key ∧ ¬Starts key "    ") : ¬Item line := by
  rintro (hitem | hitem)
  · exact h.not_starts hopens.1 hopens.2 hitem
  · exact h.not_starts hgoesOn.1 hgoesOn.2 hitem

namespace FileEntry

theorem item_of_mem_flatMap {files : List FileEntry} : ∀ line ∈ files.flatMap lines, Item line := by
  intro line hline
  obtain ⟨file, -, hline⟩ := List.mem_flatMap.mp hline
  obtain rfl | rfl : line = "  - Path: " ++ file.path ∨
      line = "    DirectoryIndex: " ++ toString file.directoryIndex.toNat := by
    simpa [lines] using hline
  · exact Or.inl (Starts.trans (by decide) (starts_append "  - Path: " _))
  · exact Or.inr (Starts.trans (by decide) (starts_append "    DirectoryIndex: " _))

theorem flatMap_lines_injective :
    Function.Injective fun files : List FileEntry => files.flatMap lines := by
  intro files files' h
  induction files generalizing files' with
  | nil =>
    cases files' with
    | nil => rfl
    | cons file' files' => simp [lines] at h
  | cons file files ih =>
    cases files' with
    | nil => simp [lines] at h
    | cons file' files' =>
      simp only [List.flatMap_cons, lines, List.cons_append, List.nil_append, List.cons.injEq] at h
      obtain ⟨hpath, hindex, hrest⟩ := h
      have hfile : file = file' := by
        cases file
        cases file'
        rw [mk.injEq]
        exact ⟨(String.append_right_inj _).mp hpath,
          UInt64.toNat_inj.mp (append_toString_inj hindex)⟩
      rw [hfile, ih hrest]

theorem indented_lines {file : FileEntry} (h : OneLine file.path) :
    ∀ line ∈ file.lines, Indented line := by
  rw [lines, List.forall_mem_cons, List.forall_mem_singleton]
  exact ⟨.append ⟨by decide, by decide⟩ h, .append ⟨by decide, by decide⟩ (oneLine_toString _)⟩

end FileEntry

namespace LineTableStatus

theorem indented_lines (status : LineTableStatus) : ∀ line ∈ status.lines, Indented line := by
  cases status with
  | headerLengthMismatch declared consumed =>
    rw [lines, List.forall_mem_singleton]
    have hkey : Indented "  LineTableWarning: header was supposed to be " :=
      ⟨by decide, by decide⟩
    have hdeclared := hkey.append (oneLine_toString declared.toNat)
    have hbetween := hdeclared.append (by decide : OneLine " bytes long, but it is ")
    exact (hbetween.append (oneLine_toString consumed)).append (by decide)
  | decoded | unsupportedVersion => simp [lines]

theorem starts_of_mem_lines {status : LineTableStatus} {line : String} (h : line ∈ status.lines) :
    Starts "  LineTableWarning: " line := by
  cases status with
  | headerLengthMismatch declared consumed =>
    obtain rfl := List.mem_singleton.mp h
    rw [String.append_assoc, String.append_assoc, String.append_assoc]
    exact Starts.trans (by decide) (starts_append _ _)
  | decoded | unsupportedVersion => cases h

/-- A warning is neither a heading nor an item. -/
theorem head?_lines (status : LineTableStatus) {heading : String}
    (hheading : ¬Starts "  LineTableWarning: " heading) :
    ∀ line ∈ status.lines.head?, line ≠ heading ∧ ¬Item line := by
  intro line hline
  have hstarts := starts_of_mem_lines (List.mem_of_mem_head? hline)
  refine ⟨?_, hstarts.not_item (by decide) (by decide)⟩
  rintro rfl
  exact hheading hstarts

/-- Both lengths can be read off the line that tells of them. -/
theorem lines_headerLengthMismatch_inj {declared declared' : UInt64} {consumed consumed' : Nat}
    (h : (headerLengthMismatch declared consumed).lines =
      (headerLengthMismatch declared' consumed').lines) :
    declared = declared' ∧ consumed = consumed' := by
  have hline := congrArg String.toList (List.singleton_inj.mp h)
  simp only [String.toList_append, List.append_assoc] at hline
  have hbetween (rest : List Char) : Json.Ends (" bytes long, but it is ".toList ++ rest) := by
    simp [Json.Ends]
  have hafter : Json.Ends " bytes long".toList := by simp [Json.Ends]
  obtain ⟨hdeclared, hrest⟩ :=
    Json.toString_append_inj (hbetween _) (hbetween _) (List.append_cancel_left hline)
  obtain ⟨hconsumed, -⟩ :=
    Json.toString_append_inj hafter hafter (List.append_cancel_left hrest)
  exact ⟨UInt64.toNat_inj.mp hdeclared, hconsumed⟩

theorem lines_eq_iff {status status' : LineTableStatus} : status.lines = status'.lines ↔
    ∀ declared consumed, status = headerLengthMismatch declared consumed ∨
      status' = headerLengthMismatch declared consumed → status = status' := by
  constructor
  · intro h declared consumed hstatus
    cases status with
    | headerLengthMismatch =>
      cases status' with
      | headerLengthMismatch =>
        obtain ⟨rfl, rfl⟩ := lines_headerLengthMismatch_inj h
        rfl
      | decoded | unsupportedVersion => cases h
    | decoded | unsupportedVersion =>
      cases status' with
      | headerLengthMismatch => cases h
      | decoded | unsupportedVersion => simp at hstatus
  · intro h
    cases status with
    | headerLengthMismatch => rw [h _ _ (Or.inl rfl)]
    | decoded | unsupportedVersion =>
      cases status' with
      | headerLengthMismatch => rw [h _ _ (Or.inr rfl)]
      | decoded | unsupportedVersion => rfl

end LineTableStatus

namespace LineTableRecord

/-- What stands after the version in the lines of a table. -/
theorem lines_eq (t : LineTableRecord) : t.lines =
    ("  LineTableOffset: " ++ toString t.offset) ::
      ("  LineTableVersion: " ++ toString t.version.toNat) ::
        (headed "  Directories:" (t.directories.map ("  - " ++ ·)) ++
          (headed "  Files:" (t.files.flatMap FileEntry.lines) ++ t.status.lines)) := by
  simp [lines]

theorem item_of_mem_directories {directories : List String} :
    ∀ line ∈ directories.map ("  - " ++ ·), Item line := by
  intro line hline
  obtain ⟨directory, -, rfl⟩ := List.mem_map.mp hline
  exact Or.inl (starts_append "  - " directory)

/-- The heading of the files and a warning end the list before them. -/
theorem lines_eq_iff {t t' : LineTableRecord} : t.lines = t'.lines ↔ t.Alike t' := by
  have hfiles (status : LineTableStatus) :
      ∀ line ∈ status.lines.head?, line ≠ "  Files:" ∧ ¬Item line :=
    status.head?_lines (by decide)
  have hdirectories (status : LineTableStatus) (files : List String) :
      ∀ line ∈ (headed "  Files:" files ++ status.lines).head?,
        line ≠ "  Directories:" ∧ ¬Item line :=
    forall_head?_headed_append (by decide) (status.head?_lines (by decide))
  constructor
  · intro h
    rw [lines_eq, lines_eq, List.cons.injEq, List.cons.injEq] at h
    obtain ⟨hoffset, hversion, hrest⟩ := h
    obtain ⟨hdirs, hrest⟩ := headed_append_inj item_of_mem_directories item_of_mem_directories
      (hdirectories _ _) (hdirectories _ _) hrest
    obtain ⟨hfile, hstatus⟩ := headed_append_inj FileEntry.item_of_mem_flatMap
      FileEntry.item_of_mem_flatMap (hfiles _) (hfiles _) hrest
    have hitem : Function.Injective fun directory => "  - " ++ directory :=
      fun _ _ heq => (String.append_right_inj _).mp heq
    exact {
      offset := append_toString_inj hoffset
      version := UInt16.toNat_inj.mp (append_toString_inj hversion)
      directories := List.map_injective_iff.mpr hitem hdirs
      files := FileEntry.flatMap_lines_injective hfile
      status := LineTableStatus.lines_eq_iff.mp hstatus }
  · rintro ⟨hoffset, hversion, hdirectories, hfiles, hstatus⟩
    rw [lines_eq, lines_eq, hoffset, hversion, hdirectories, hfiles,
      LineTableStatus.lines_eq_iff.mpr hstatus]

/-- A table has lines, so whether there is one can be told. -/
theorem getD_lines_eq_iff {table table' : Option LineTableRecord} :
    (table.map lines).getD [] = (table'.map lines).getD [] ↔ Option.Rel Alike table table' := by
  constructor
  · intro h
    cases table with
    | none =>
      cases table' with
      | none => exact .none
      | some t' => cases h
    | some t =>
      cases table' with
      | none => cases h
      | some t' => exact .some (lines_eq_iff.mp h)
  · rintro (h | _)
    · exact lines_eq_iff.mpr h
    · rfl

theorem indented_lines {t : LineTableRecord} (h : t.OneLined) : ∀ line ∈ t.lines, Indented line := by
  have hdirectories : ∀ line ∈ t.directories.map ("  - " ++ ·), Indented line := by
    intro line hline
    obtain ⟨directory, hdirectory, rfl⟩ := List.mem_map.mp hline
    exact Indented.append ⟨by decide, by decide⟩ (h.directories directory hdirectory)
  have hfiles : ∀ line ∈ t.files.flatMap FileEntry.lines, Indented line := by
    intro line hline
    obtain ⟨file, hfile, hline⟩ := List.mem_flatMap.mp hline
    exact FileEntry.indented_lines (h.paths file hfile) line hline
  rw [lines_eq, List.forall_mem_cons, List.forall_mem_cons, List.forall_mem_append,
    List.forall_mem_append]
  exact ⟨.append ⟨by decide, by decide⟩ (oneLine_toString _),
    .append ⟨by decide, by decide⟩ (oneLine_toString _),
    indented_headed ⟨by decide, by decide⟩ hdirectories,
    indented_headed ⟨by decide, by decide⟩ hfiles, t.status.indented_lines⟩

end LineTableRecord

namespace UnitRecord

/-- The lines of a unit after the first. -/
def details (u : UnitRecord) : List String :=
  ("  AbbrevOffset: " ++ toString u.abbrevOffset.toNat) ::
    (optionalLine "  Name: " u.name ++ (optionalLine "  CompDir: " u.compDir ++
      (u.lineTable.map LineTableRecord.lines).getD []))

theorem lines_eq (u : UnitRecord) : u.lines = ("- Offset: " ++ toString u.offset) :: u.details := by
  simp [lines, details]

/-- Keys tell whether the lines before a table are there. -/
theorem lines_eq_iff {u u' : UnitRecord} : u.lines = u'.lines ↔ u.Alike u' := by
  have hpast {key : String} (hkey : ¬Starts key "  LineTableOffset: ")
      (hkey' : ¬Starts "  LineTableOffset: " key) (table : Option LineTableRecord) :
      ∀ line ∈ ((table.map LineTableRecord.lines).getD []).head?, ¬Starts key line := by
    cases table with
    | none => simp
    | some t =>
      rintro _ ⟨⟩
      exact (starts_append "  LineTableOffset: " _).not_starts hkey hkey'
  have hname (compDir : Option String) (table : Option LineTableRecord) :
      ∀ line ∈ (optionalLine "  CompDir: " compDir ++
        (table.map LineTableRecord.lines).getD []).head?, ¬Starts "  Name: " line := by
    refine forall_head?_optionalLine_append (fun s => ?_) (hpast (by decide) (by decide) table)
    exact (starts_append "  CompDir: " s).not_starts (by decide) (by decide)
  rw [lines_eq, lines_eq, List.cons.injEq, details, details, List.cons.injEq]
  constructor
  · rintro ⟨hoffset, habbrevOffset, hrest⟩
    obtain ⟨hsame, hrest⟩ := optionalLine_append_inj (hname _ _) (hname _ _) hrest
    obtain ⟨hsame', htable⟩ := optionalLine_append_inj (hpast (by decide) (by decide) _)
      (hpast (by decide) (by decide) _) hrest
    exact {
      offset := append_toString_inj hoffset
      abbrevOffset := UInt64.toNat_inj.mp (append_toString_inj habbrevOffset)
      name := hsame
      compDir := hsame'
      lineTable := LineTableRecord.getD_lines_eq_iff.mp htable }
  · rintro ⟨hoffset, habbrevOffset, hsame, hsame', htable⟩
    rw [hoffset, habbrevOffset, hsame, hsame', LineTableRecord.getD_lines_eq_iff.mpr htable]
    exact ⟨rfl, rfl, rfl⟩

theorem indented_details {u : UnitRecord} (h : u.OneLined) : ∀ line ∈ u.details, Indented line := by
  have htable : ∀ line ∈ (u.lineTable.map LineTableRecord.lines).getD [], Indented line := by
    cases hlineTable : u.lineTable with
    | none => simp
    | some t => exact LineTableRecord.indented_lines (h.lineTable t hlineTable)
  rw [details, List.forall_mem_cons, List.forall_mem_append, List.forall_mem_append]
  exact ⟨.append ⟨by decide, by decide⟩ (oneLine_toString _),
    indented_optionalLine ⟨by decide, by decide⟩ h.name,
    indented_optionalLine ⟨by decide, by decide⟩ h.compDir, htable⟩

end UnitRecord

theorem unlines_append (lines lines' : List String) :
    unlines (lines ++ lines') = unlines lines ++ unlines lines' := by
  simp [unlines]

/-- The lines of a report, one unit after another. -/
theorem listing_eq (units : List UnitRecord) :
    listing units = unlines ("CompilationUnits:" :: units.flatMap UnitRecord.lines) := by
  have hunits : String.join (units.map UnitRecord.listing) =
      unlines (units.flatMap UnitRecord.lines) := by
    induction units with
    | nil => rfl
    | cons u units ih =>
      rw [List.flatMap_cons, unlines_append, ← ih]
      simp [UnitRecord.listing]
  have hheader := unlines_append ["CompilationUnits:"] (units.flatMap UnitRecord.lines)
  rw [listing, hunits]
  exact hheader.symm

theorem UnitRecord.oneLine_lines {units : List UnitRecord} (h : ∀ u ∈ units, u.OneLined) :
    ∀ line ∈ "CompilationUnits:" :: units.flatMap lines, OneLine line := by
  refine List.forall_mem_cons.mpr ⟨by decide, fun line hline => ?_⟩
  obtain ⟨u, hu, hline⟩ := List.mem_flatMap.mp hline
  rw [lines_eq] at hline
  obtain rfl | hdetail := List.mem_cons.mp hline
  · exact OneLine.append (by decide) (oneLine_toString u.offset)
  · exact (indented_details (h u hu) line hdetail).oneLine

/-- Where texts stand on one line each, the listing of a report tells all that it is meant to show,
whatever the texts look like: reports that are listed alike have as many units, which are alike in
order, and no others are listed alike. -/
theorem Report.listing_eq_iff {r r' : Report} (h : ∀ u ∈ r.units, u.OneLined)
    (h' : ∀ u ∈ r'.units, u.OneLined) :
    r.listing = r'.listing ↔ List.Forall₂ UnitRecord.Alike r.units r'.units := by
  have hhead (u : UnitRecord) : ¬Starts "  " ("- Offset: " ++ toString u.offset) :=
    (starts_append "- Offset: " _).not_starts (by decide) (by decide)
  have hstarts {u : UnitRecord} (hu : u.OneLined) : ∀ line ∈ u.details, Starts "  " line :=
    fun line hline => (UnitRecord.indented_details hu line hline).starts
  have hlines : UnitRecord.lines = fun u => ("- Offset: " ++ toString u.offset) :: u.details :=
    funext UnitRecord.lines_eq
  rw [listing, listing, listing_eq, listing_eq]
  constructor
  · intro hsame
    have hblocks := (List.cons.inj
      (unlines_inj (UnitRecord.oneLine_lines h) (UnitRecord.oneLine_lines h') hsame)).2
    rw [hlines] at hblocks
    refine (forall₂_of_flatMap_eq hhead (fun u hu => hstarts (h u hu))
      (fun u hu => hstarts (h' u hu)) hblocks).imp fun u u' hblock => ?_
    rw [← UnitRecord.lines_eq_iff, UnitRecord.lines_eq, UnitRecord.lines_eq, hblock.1, hblock.2]
  · intro halike
    have hblocks : r.units.map UnitRecord.lines = r'.units.map UnitRecord.lines := by
      rw [← List.forall₂_eq_eq_eq, List.forall₂_map_left_iff, List.forall₂_map_right_iff]
      exact halike.imp fun u u' hu => UnitRecord.lines_eq_iff.mpr hu
    rw [List.flatMap_def, List.flatMap_def, hblocks]

/-- A name that looks like the first line of a unit, in units of two versions; and a directory that
looks like a file. -/
theorem Report.listing_eq_iff_imitation :
    listing ⟨[⟨0, 2, 0, 8, some "- Offset: 0", none, none⟩]⟩ =
        listing ⟨[⟨0, 3, 0, 4, some "- Offset: 0", none, none⟩]⟩ ∧
      listing ⟨[⟨0, 4, 0, 8, none, none, some ⟨0, 3, .decoded, ["Path: x"], []⟩⟩]⟩ ≠
        listing ⟨[⟨0, 4, 0, 8, none, none, some ⟨0, 3, .decoded, [], [⟨"x", 0⟩]⟩⟩]⟩ := by
  constructor
  · have hname : ∀ name ∈ some "- Offset: 0", OneLine name := by
      rintro _ ⟨⟩
      decide
    refine (listing_eq_iff ?_ ?_).mpr (.cons ⟨rfl, rfl, rfl, rfl, .none⟩ .nil) <;>
      exact List.forall_mem_singleton.mpr ⟨hname, by simp, by simp⟩
  · have hunit {t : LineTableRecord} (ht : t.OneLined) :
        ∀ u ∈ [(⟨0, 4, 0, 8, none, none, some t⟩ : UnitRecord)], u.OneLined :=
      List.forall_mem_singleton.mpr ⟨by simp, by simp, by simpa using ht⟩
    have hdirectory : LineTableRecord.OneLined ⟨0, 3, .decoded, ["Path: x"], []⟩ :=
      ⟨List.forall_mem_singleton.mpr (by decide), by simp⟩
    have hfile : LineTableRecord.OneLined ⟨0, 3, .decoded, [], [⟨"x", 0⟩]⟩ :=
      ⟨by simp, List.forall_mem_singleton.mpr (by decide : OneLine "x")⟩
    intro hsame
    have halike := (listing_eq_iff (hunit hdirectory) (hunit hfile)).mp hsame
    obtain ⟨⟨-, -, -, -, htable⟩, -⟩ := List.forall₂_cons.mp halike
    cases htable with
    | some htable => exact absurd htable.directories (by decide)

end DwarfUnits
