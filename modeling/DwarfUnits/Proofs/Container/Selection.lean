import DwarfUnits.Container.SectionMap
import Mathlib.Data.Nat.Bitwise

/-! The choice of debug sections from a container: of several candidates for one, the last that has
bytes counts, and the first that cannot be taken ends the choice. -/
namespace DwarfUnits.Container

/-- The names that stand for a debug section, one for each kind of container. -/
def aliases : SectionId → List String
  | .abbrevs => [".debug_abbrev", "__debug_abbrev"]
  | .info => [".debug_info", "__debug_info"]
  | .lines => [".debug_line", "__debug_line"]
  | .lineStrings => [".debug_line_str", "__debug_line_str"]
  | .strings => [".debug_str", "__debug_str"]
  | _ => []

theorem sectionId?_eq_some_iff {name : String} {id : SectionId} :
    sectionId? name = some id ↔ name ∈ aliases id := by
  constructor
  · intro h
    unfold sectionId? at h
    split at h <;> cases h <;> simp [aliases]
  · intro h
    cases id <;> simp only [aliases, List.mem_cons, List.not_mem_nil, or_false] at h <;>
      rcases h with rfl | rfl <;> rfl

theorem SectionKind.isStorageOnly_eq_false_iff {kind : SectionKind} :
    kind.isStorageOnly = false ↔ kind ≠ .uninitializedData ∧ kind ≠ .uninitializedTls := by
  cases kind <;> simp [isStorageOnly]

/-- Of the flags of an ELF section one bit counts, whatever the others are. -/
theorem SectionFlags.isGroupMember_eq_false_iff {flags : SectionFlags} :
    flags.isGroupMember = false ↔ ∀ word, flags = .elf word → word.toNat.testBit 9 = false := by
  cases flags with
  | other => simp [isGroupMember]
  | elf word =>
    have hflag : groupFlag.toNat = 2 ^ 9 := rfl
    have hmask : word &&& groupFlag = 0 ↔ word.toNat.testBit 9 = false := by
      rw [← UInt64.toNat_inj, UInt64.toNat_and, hflag, Nat.and_two_pow, UInt64.toNat_zero]
      cases word.toNat.testBit 9 <;> simp
    simp [isGroupMember, hmask]

namespace Section

/-- A section with a readable name that stands for `id`, with bytes in the file and in no group. -/
structure Candidate (s : Section) (id : SectionId) (name : String) : Prop where
  readable : s.name = some name
  stands : name ∈ aliases id
  stored : s.kind ≠ .uninitializedData ∧ s.kind ≠ .uninitializedTls
  /-- Bit 9 of the flags of an ELF section says that it is in a group. -/
  ungrouped : ∀ word, s.flags = .elf word → word.toNat.testBit 9 = false

/-- Why a candidate cannot be taken. Its compression is looked at before its bytes. -/
inductive Refused (s : Section) (name : String) : Error → Prop
  | unreadableHeader {fault : Fault} (h : s.compression = .error fault) :
    Refused s name (.container fault)
  | compressed {format : Compression} (h : s.compression = .ok format) (hformat : format ≠ .none) :
    Refused s name (.compressedSection name)
  | unreadableData {fault : Fault} (hplain : s.compression = .ok .none)
    (h : s.data = .error fault) : Refused s name (.container fault)

/-- The section is a candidate and cannot be taken. -/
def Fails (s : Section) (e : Error) : Prop := ∃ id name, s.Candidate id name ∧ s.Refused name e

/-- The section is a candidate for `id` and has bytes. -/
def Gives (s : Section) (id : SectionId) (data : ByteArray) : Prop :=
  (∃ name, s.Candidate id name) ∧ s.data = .ok data ∧ data.size ≠ 0

variable {s : Section} {id : SectionId} {name : String}

theorem candidate_iff : s.Candidate id name ↔ s.name = some name ∧ sectionId? name = some id ∧
    s.kind.isStorageOnly = false ∧ s.flags.isGroupMember = false := by
  rw [sectionId?_eq_some_iff, SectionKind.isStorageOnly_eq_false_iff,
    SectionFlags.isGroupMember_eq_false_iff]
  constructor
  · rintro ⟨hname, hstands, hstored, hungrouped⟩
    exact ⟨hname, hstands, hstored, hungrouped⟩
  · rintro ⟨hname, hstands, hstored, hungrouped⟩
    exact ⟨hname, hstands, hstored, hungrouped⟩

theorem choose_of_not_candidate (h : ∀ id name, ¬s.Candidate id name) :
    s.choose.1 = .ok none := by
  unfold choose
  split
  · rfl
  · rename_i name hname
    split
    · rfl
    · rename_i id hid
      have hnot := mt candidate_iff.mpr (h id name)
      unfold contribution
      split
      · rfl
      · rename_i hstored
        split
        · rfl
        · rename_i hungrouped
          rw [Bool.not_eq_true] at hstored hungrouped
          exact absurd ⟨hname, hid, hstored, hungrouped⟩ hnot

/-- A candidate stands for one debug section under one name. -/
theorem Candidate.unique {id' : SectionId} {name' : String} (h : s.Candidate id name)
    (h' : s.Candidate id' name') : id = id' ∧ name = name' := by
  have hname : name = name' := Option.some.inj (h.readable.symm.trans h'.readable)
  subst hname
  have hid := (sectionId?_eq_some_iff.mpr h.stands).symm.trans
    (sectionId?_eq_some_iff.mpr h'.stands)
  exact ⟨Option.some.inj hid, rfl⟩

/-- A section that nothing is wrong with is stored as it is and has readable bytes. -/
theorem refused_or_plain (s : Section) (name : String) :
    (∃ e, s.Refused name e) ∨ ∃ data, s.compression = .ok .none ∧ s.data = .ok data := by
  cases hcompression : s.compression with
  | error fault => exact .inl ⟨_, .unreadableHeader hcompression⟩
  | ok format =>
    by_cases hplain : format = .none
    · subst hplain
      cases hdata : s.data with
      | error fault => exact .inl ⟨_, .unreadableData hcompression hdata⟩
      | ok data => exact .inr ⟨data, rfl, rfl⟩
    · exact .inl ⟨_, .compressed hcompression hplain⟩

namespace Candidate

theorem choose_of_refused (h : s.Candidate id name) {e : Error} (he : s.Refused name e) :
    s.choose.1 = .error e := by
  obtain ⟨hname, hid, hstored, hungrouped⟩ := candidate_iff.mp h
  rcases he with hheader | ⟨hformat, hne⟩ | ⟨hplain, hdata⟩
  · simp [choose, contribution, hname, hid, hstored, hungrouped, hheader]
  · simp [choose, contribution, hname, hid, hstored, hungrouped, hformat, hne]
  · simp [choose, contribution, hname, hid, hstored, hungrouped, hplain, hdata]

theorem choose_of_plain (h : s.Candidate id name) {data : ByteArray}
    (hplain : s.compression = .ok .none) (hdata : s.data = .ok data) :
    s.choose.1 = .ok (if data.size = 0 then none else some (id, data)) := by
  obtain ⟨hname, hid, hstored, hungrouped⟩ := candidate_iff.mp h
  have hempty : data.isEmpty = decide (data.size = 0) := rfl
  simp only [choose, contribution, hname, hid, hstored, hungrouped, hplain, hdata, hempty]
  by_cases hsize : data.size = 0 <;> simp [hsize]

theorem choose_error_iff (h : s.Candidate id name) {e : Error} :
    s.choose.1 = .error e ↔ s.Refused name e := by
  constructor
  · intro he
    obtain ⟨e', he'⟩ | ⟨data, hplain, hdata⟩ := s.refused_or_plain name
    · rw [h.choose_of_refused he'] at he
      cases he
      exact he'
    · rw [h.choose_of_plain hplain hdata] at he
      cases he
  · exact h.choose_of_refused

/-- Bytes come from a section in which nothing is wrong, for the debug section it stands for. -/
theorem choose_some_iff (h : s.Candidate id name) {found : Option (SectionId × ByteArray)}
    (hfound : s.choose.1 = .ok found) {other : SectionId} {data : ByteArray} :
    found = some (other, data) ↔ id = other ∧ s.data = .ok data ∧ data.size ≠ 0 := by
  obtain ⟨e, he⟩ | ⟨bytes, hplain, hdata⟩ := s.refused_or_plain name
  · rw [h.choose_of_refused he] at hfound
    cases hfound
  · rw [h.choose_of_plain hplain hdata] at hfound
    rw [← Except.ok.inj hfound, hdata, Option.ite_none_left_eq_some]
    constructor
    · rintro ⟨hsize, ⟨⟩⟩
      exact ⟨rfl, rfl, hsize⟩
    · rintro ⟨rfl, ⟨⟩, hsize⟩
      exact ⟨hsize, rfl⟩

end Candidate

theorem choose_error_iff {e : Error} : s.choose.1 = .error e ↔ s.Fails e := by
  by_cases h : ∃ id name, s.Candidate id name
  · obtain ⟨id, name, h⟩ := h
    rw [h.choose_error_iff]
    constructor
    · exact fun hrefused => ⟨id, name, h, hrefused⟩
    · rintro ⟨id', name', h', hrefused⟩
      obtain ⟨rfl, rfl⟩ := h.unique h'
      exact hrefused
  · rw [choose_of_not_candidate fun id name hcandidate => h ⟨id, name, hcandidate⟩]
    constructor
    · nofun
    · rintro ⟨id, name, hcandidate, -⟩
      exact absurd ⟨id, name, hcandidate⟩ h

/-- A section that can be passed contributes what it gives. -/
theorem choose_some_iff {found : Option (SectionId × ByteArray)} {data : ByteArray}
    (hfound : s.choose.1 = .ok found) : found = some (id, data) ↔ s.Gives id data := by
  by_cases h : ∃ id name, s.Candidate id name
  · obtain ⟨own, name, h⟩ := h
    rw [h.choose_some_iff hfound]
    constructor
    · rintro ⟨rfl, hdata, hsize⟩
      exact ⟨⟨name, h⟩, hdata, hsize⟩
    · rintro ⟨⟨name', h'⟩, hdata, hsize⟩
      exact ⟨(h.unique h').1, hdata, hsize⟩
  · rw [choose_of_not_candidate fun id name hcandidate => h ⟨id, name, hcandidate⟩] at hfound
    obtain rfl := Except.ok.inj hfound
    constructor
    · rintro ⟨⟩
    · rintro ⟨⟨name, hcandidate⟩, -⟩
      exact absurd ⟨id, name, hcandidate⟩ h

/-- The error that a section ends the choice with, if it does. -/
def error? (s : Section) : Option Error :=
  match s.choose.1 with
  | .error e => some e
  | .ok _ => none

theorem error?_eq_some_iff {e : Error} : s.error? = some e ↔ s.Fails e := by
  rw [← choose_error_iff, error?]
  cases s.choose.1 <;> simp

theorem error?_eq_none_iff : s.error? = none ↔ ∀ e, ¬s.Fails e := by
  simp only [Option.eq_none_iff_forall_ne_some, ne_eq, error?_eq_some_iff]

/-- The bytes that a section contributes to a debug section, if it does. -/
def given? (id : SectionId) (s : Section) : Option ByteArray :=
  match s.choose.1 with
  | .ok (some (other, data)) => if other = id then some data else none
  | _ => none

theorem given?_eq_some_iff {data : ByteArray} (hpasses : s.error? = none) :
    s.given? id = some data ↔ s.Gives id data := by
  unfold error? at hpasses
  cases hchoose : s.choose.1 with
  | error e => simp [hchoose] at hpasses
  | ok found =>
    rw [← choose_some_iff hchoose, given?, hchoose]
    rcases found with _ | ⟨other, bytes⟩
    · simp
    · simp only [Option.ite_none_right_eq_some, Option.some.injEq, Prod.mk.injEq]

end Section

variable {entries found : List (SectionId × ByteArray)} {sections : List Section}

theorem gather_error_iff_findSome? {e : Error} :
    (gather entries sections).1 = .error e ↔ sections.findSome? Section.error? = some e := by
  induction sections generalizing entries with
  | nil => simp [gather]
  | cons s rest ih =>
    rw [gather, List.findSome?_cons]
    rcases hchoose : s.choose with ⟨e' | found, told⟩
    · simp [Section.error?, hchoose]
    · simpa [Section.error?, hchoose] using ih

theorem error?_of_gather_ok (h : (gather entries sections).1 = .ok found) :
    ∀ s ∈ sections, s.error? = none := by
  rw [← List.findSome?_eq_none_iff]
  cases herror : sections.findSome? Section.error? with
  | none => rfl
  | some e =>
    rw [gather_error_iff_findSome?.mpr herror] at h
    cases h

/-- Each contribution stands before those of the sections before it. -/
theorem find?_gather {id : SectionId} (h : (gather entries sections).1 = .ok found) :
    (found.find? (·.1 = id)).map (·.2) =
      (sections.reverse.findSome? (Section.given? id)).or
        ((entries.find? (·.1 = id)).map (·.2)) := by
  induction sections generalizing entries with
  | nil =>
    obtain rfl := Except.ok.inj h
    rfl
  | cons s rest ih =>
    rw [gather] at h
    rcases hchoose : s.choose with ⟨e | chosen, told⟩
    · simp [hchoose] at h
    · have hrest : (gather (chosen.toList ++ entries) rest).1 = .ok found := by
        simpa [hchoose] using h
      rw [ih hrest, List.reverse_cons, List.findSome?_append, Option.or_assoc]
      congr 1
      rw [List.find?_append, Option.map_or]
      congr 1
      rcases chosen with _ | ⟨other, data⟩
      · simp [Section.given?, hchoose]
      · by_cases hother : other = id <;> simp [Section.given?, hchoose, hother]

/-- The first candidate that cannot be taken ends the choice. -/
theorem gather_error_iff {e : Error} :
    (gather entries sections).1 = .error e ↔ ∃ before s after, sections = before ++ s :: after ∧
      s.Fails e ∧ ∀ t ∈ before, ∀ e, ¬t.Fails e := by
  rw [gather_error_iff_findSome?, List.findSome?_eq_some_iff]
  simp only [Section.error?_eq_some_iff, Section.error?_eq_none_iff]

theorem exists_gather_error_iff :
    (∃ e, (gather entries sections).1 = .error e) ↔ ∃ s ∈ sections, ∃ e, s.Fails e := by
  simp only [gather_error_iff_findSome?, ← Option.isSome_iff_exists, List.findSome?_isSome_iff]
  simp only [Option.isSome_iff_exists, Section.error?_eq_some_iff]

/-- Of the sections that give bytes to a debug section the last one counts. -/
theorem find?_gather_eq_some_iff {id : SectionId} {data : ByteArray}
    (h : (gather [] sections).1 = .ok found) :
    (found.find? (·.1 = id)).map (·.2) = some data ↔
      ∃ before s after, sections = before ++ s :: after ∧ s.Gives id data ∧
        ∀ t ∈ after, ∀ other, ¬t.Gives id other := by
  have hpasses := error?_of_gather_ok h
  rw [find?_gather h, List.find?_nil, Option.map_none, Option.or_none, List.findSome?_eq_some_iff]
  constructor
  · rintro ⟨after, s, before, hsplit, hs, hafter⟩
    have hsections : sections = before.reverse ++ s :: after.reverse := by
      simpa using congrArg List.reverse hsplit
    have hmem : ∀ t ∈ after, t ∈ sections := by
      intro t ht
      simp [hsections, ht]
    refine ⟨before.reverse, s, after.reverse, hsections, ?_, fun t ht other hgives => ?_⟩
    · exact (Section.given?_eq_some_iff (hpasses s (by simp [hsections]))).mp hs
    · have htafter : t ∈ after := List.mem_reverse.mp ht
      have hgiven := (Section.given?_eq_some_iff (hpasses t (hmem t htafter))).mpr hgives
      rw [hafter t htafter] at hgiven
      cases hgiven
  · rintro ⟨before, s, after, rfl, hs, hafter⟩
    refine ⟨after.reverse, s, before.reverse, by simp, ?_, fun t ht => ?_⟩
    · exact (Section.given?_eq_some_iff (hpasses s (by simp))).mpr hs
    · have htafter : t ∈ after := List.mem_reverse.mp ht
      rw [Option.eq_none_iff_forall_ne_some]
      intro other hgiven
      exact hafter t htafter other
        ((Section.given?_eq_some_iff (hpasses t (by simp [htafter]))).mp hgiven)

/-- Nothing is found where no section gives bytes. -/
theorem find?_gather_eq_none_iff {id : SectionId} (h : (gather [] sections).1 = .ok found) :
    (found.find? (·.1 = id)).map (·.2) = none ↔ ∀ s ∈ sections, ∀ data, ¬s.Gives id data := by
  have hpasses := error?_of_gather_ok h
  rw [find?_gather h, List.find?_nil, Option.map_none, Option.or_none, List.findSome?_eq_none_iff]
  simp only [List.mem_reverse, Option.eq_none_iff_forall_ne_some]
  constructor
  · intro hall s hs data hgives
    exact hall s hs data ((Section.given?_eq_some_iff (hpasses s hs)).mpr hgives)
  · intro hall s hs data hgiven
    exact hall s hs data ((Section.given?_eq_some_iff (hpasses s hs)).mp hgiven)

theorem Section.not_gives_of_aliases_eq_nil {s : Section} {id : SectionId} {data : ByteArray}
    (h : aliases id = []) : ¬s.Gives id data := by
  rintro ⟨⟨name, hcandidate⟩, -, -⟩
  have hstands := hcandidate.stands
  simp [h] at hstands

/-- What the choice from the sections of an image comes to. -/
structure Image.Selection (image : Image) (result : Except Error SectionMap) : Prop where
  fails_iff : (∃ e, result = .error e) ↔ ∃ s ∈ image.sections, ∃ e, s.Fails e
  /-- The first candidate that cannot be taken decides; other sections are no cause of errors. -/
  error_iff : ∀ e, result = .error e ↔ ∃ before s after, image.sections = before ++ s :: after ∧
    s.Fails e ∧ ∀ t ∈ before, ∀ e, ¬t.Fails e
  order : ∀ map, result = .ok map → map.order = image.order
  /-- The last candidate that has bytes counts, be there empty ones after it. -/
  get?_eq_some_iff : ∀ map, result = .ok map → ∀ id data, map.get? id = some data ↔
    ∃ before s after, image.sections = before ++ s :: after ∧ s.Gives id data ∧
      ∀ t ∈ after, ∀ other, ¬t.Gives id other
  get?_eq_none_iff : ∀ map, result = .ok map → ∀ id, map.get? id = none ↔
    ∀ s ∈ image.sections, ∀ data, ¬s.Gives id data
  get?_other : ∀ map, result = .ok map →
    ∀ id ∉ [.abbrevs, .info, .lines, .lineStrings, .strings], map.get? id = none
  /-- Of the three that a walk needs, the first that is not there is missed. -/
  required : ∀ map, result = .ok map → map.toSections =
    match map.get? .info, map.get? .lines, map.get? .abbrevs with
    | none, _, _ => .error (.missingSection .info)
    | some _, none, _ => .error (.missingSection .lines)
    | some _, some _, none => .error (.missingSection .abbrevs)
    | some info, some lines, some abbrevs => .ok { order := image.order, info, abbrevs, lines
                                                   strings := map.get? .strings
                                                   lineStrings := map.get? .lineStrings }

theorem SectionMap.toSections_eq (map : SectionMap) :
    map.toSections = match map.get? .info, map.get? .lines, map.get? .abbrevs with
      | none, _, _ => .error (.missingSection .info)
      | some _, none, _ => .error (.missingSection .lines)
      | some _, some _, none => .error (.missingSection .abbrevs)
      | some info, some lines, some abbrevs => .ok { order := map.order, info, abbrevs, lines
                                                     strings := map.get? .strings
                                                     lineStrings := map.get? .lineStrings } := by
  unfold toSections get
  cases map.get? .info <;> cases map.get? .lines <;> cases map.get? .abbrevs <;> rfl

theorem ofImage_eq (image : Image) : (SectionMap.ofImage image).1 =
    (gather [] image.sections).1.map fun entries => { order := image.order, entries } := by
  unfold SectionMap.ofImage
  rcases gather [] image.sections with ⟨result, told⟩
  rfl

theorem ofImage_ok_iff {image : Image} {map : SectionMap} :
    (SectionMap.ofImage image).1 = .ok map ↔
      map.order = image.order ∧ (gather [] image.sections).1 = .ok map.entries := by
  rw [ofImage_eq]
  rcases map with ⟨order, found⟩
  cases (gather [] image.sections).1 with
  | error e => simp [Except.map]
  | ok entries => simp [Except.map, eq_comm]

theorem ofImage_error_iff {image : Image} {e : Error} :
    (SectionMap.ofImage image).1 = .error e ↔ (gather [] image.sections).1 = .error e := by
  rw [ofImage_eq]
  cases (gather [] image.sections).1 <;> simp [Except.map]

theorem ofImage_selection (image : Image) : image.Selection (SectionMap.ofImage image).1 where
  fails_iff := by simp only [ofImage_error_iff, exists_gather_error_iff]
  error_iff := fun e => ofImage_error_iff.trans gather_error_iff
  order := fun map h => (ofImage_ok_iff.mp h).1
  get?_eq_some_iff := fun map h id data => find?_gather_eq_some_iff (ofImage_ok_iff.mp h).2
  get?_eq_none_iff := fun map h id => find?_gather_eq_none_iff (ofImage_ok_iff.mp h).2
  get?_other := by
    intro map h id hid
    have hnone : aliases id = [] := by
      cases id <;> simp [aliases] at hid ⊢
    refine (find?_gather_eq_none_iff (ofImage_ok_iff.mp h).2).mpr fun s _ data => ?_
    exact Section.not_gives_of_aliases_eq_nil hnone
  required := by
    intro map h
    rw [SectionMap.toSections_eq, (ofImage_ok_iff.mp h).1]

/-- A container that cannot be opened fails with what the parser says; one that can be gives the
debug sections that its table of sections selects, whatever stands in the table. -/
theorem sections_selected (parser : Parser) (bytes : ByteArray) :
    match parser bytes with
    | .error fault => (SectionMap.parse parser bytes).1 = .error (.container fault)
    | .ok image => image.Selection (SectionMap.parse parser bytes).1 := by
  unfold SectionMap.parse
  cases parser bytes with
  | error fault => rfl
  | ok image => exact ofImage_selection image

/-- A section with nothing wrong in it. -/
def Section.plain (name : String) (data : List UInt8) : Section :=
  { name := some name, kind := .other, flags := .elf 0, compression := .ok .none
    data := .ok ⟨data.toArray⟩ }

/-- Of two sections under the two names of one debug section the second one counts, not the empty
one after them, nor a member of a group, be it compressed. -/
example :
    let sections := [.plain ".debug_info" [1], .plain "__debug_info" [2], .plain ".debug_info" [],
      { Section.plain ".debug_info" [3] with flags := .elf 0x201, compression := .ok .zlib }]
    (SectionMap.ofImage ⟨.little, sections⟩).1.map (·.get? .info) = .ok (some ⟨#[2]⟩) := by
  decide +kernel

end DwarfUnits.Container
