import DwarfUnits.Proofs.Json.Delimited
import DwarfUnits.Report.Document
import Mathlib.Data.List.Basic
import Mathlib.Data.Option.Basic

/-! The document of a report tells all of the report. -/
namespace DwarfUnits

theorem FileEntry.json_injective : Function.Injective FileEntry.json := by
  rintro ⟨path, index⟩ ⟨path', index'⟩ h
  simpa [json, UInt64.toNat_inj] using h

theorem LineTableStatus.json_injective : Function.Injective LineTableStatus.json := by
  rintro (_ | _ | ⟨declared, consumed⟩) (_ | _ | ⟨declared', consumed'⟩) h <;>
    simp [json, UInt64.toNat_inj] at h ⊢
  exact h

theorem LineTableRecord.json_injective : Function.Injective LineTableRecord.json := by
  rintro ⟨offset, version, status, directories, files⟩
    ⟨offset', version', status', directories', files'⟩ h
  have hstring : Function.Injective Json.string := fun _ _ => Json.string.inj
  simpa [json, UInt16.toNat_inj, LineTableStatus.json_injective.eq_iff,
    (List.map_injective_iff.mpr hstring).eq_iff,
    (List.map_injective_iff.mpr FileEntry.json_injective).eq_iff] using h

theorem key_of_mem_optionalField {key : String} {value : Option Json} {field : String × Json}
    (h : field ∈ optionalField key value) : field.1 = key := by
  obtain ⟨v, -, rfl⟩ : ∃ v, value = some v ∧ (key, v) = field := by simpa [optionalField] using h
  rfl

/-- Whether a field is left out can be told where no later field has its key. -/
theorem optionalField_append_inj {key : String} {value value' : Option Json}
    {rest rest' : List (String × Json)} (hrest : ∀ field ∈ rest, field.1 ≠ key)
    (hrest' : ∀ field ∈ rest', field.1 ≠ key)
    (h : optionalField key value ++ rest = optionalField key value' ++ rest') :
    value = value' ∧ rest = rest' :=
  optional_append_inj (p := fun field => field.1 = key) (fun _ _ hsame => (Prod.mk.inj hsame).2)
    (fun _ => rfl) (fun field hfield => hrest field (List.mem_of_mem_head? hfield))
    (fun field hfield => hrest' field (List.mem_of_mem_head? hfield)) h

theorem optionalField_injective (key : String) : Function.Injective (optionalField key) := by
  intro value value' h
  have hnil : ∀ field ∈ ([] : List (String × Json)), field.1 ≠ key :=
    fun _ h => absurd h List.not_mem_nil
  have happend := congrArg (· ++ []) h
  exact (optionalField_append_inj hnil hnil happend).1

theorem UnitRecord.json_injective : Function.Injective UnitRecord.json := by
  intro u u' h
  have hstring : Function.Injective Json.string := fun _ _ => Json.string.inj
  have hlast : ∀ value, ∀ field ∈ optionalField "line_table" value, field.1 ≠ "comp_dir" := by
    intro value field hfield
    rw [key_of_mem_optionalField hfield]
    decide
  have hlater : ∀ value value', ∀ field ∈ optionalField "comp_dir" value ++
      optionalField "line_table" value', field.1 ≠ "name" := by
    intro value value' field hfield
    rcases List.mem_append.mp hfield with hdir | htable
    · rw [key_of_mem_optionalField hdir]
      decide
    · rw [key_of_mem_optionalField htable]
      decide
  simp only [json, Json.object.injEq, List.cons_append, List.nil_append, List.append_assoc,
    List.cons.injEq, Prod.mk.injEq, Json.number.injEq, true_and] at h
  obtain ⟨hoffset, hversion, habbrev, haddress, hoptional⟩ := h
  obtain ⟨hname, hoptional⟩ := optionalField_append_inj (hlater _ _) (hlater _ _) hoptional
  obtain ⟨hdir, hoptional⟩ := optionalField_append_inj (hlast _) (hlast _) hoptional
  have htable := optionalField_injective "line_table" hoptional
  cases u
  cases u'
  rw [UnitRecord.mk.injEq]
  exact ⟨hoffset, UInt16.toNat_inj.mp hversion, UInt64.toNat_inj.mp habbrev,
    UInt8.toNat_inj.mp haddress, Option.map_injective hstring hname,
    Option.map_injective hstring hdir, Option.map_injective LineTableRecord.json_injective htable⟩

theorem Report.json_injective : Function.Injective Report.json := by
  rintro ⟨units⟩ ⟨units'⟩ h
  simpa [json, (List.map_injective_iff.mpr UnitRecord.json_injective).eq_iff] using h

/-- Reports that are written alike, byte for byte, are the same. -/
theorem Report.document_injective : Function.Injective fun r : Report => r.document.toUTF8 := by
  intro r r' h
  have htext : r.document = r'.document := String.toByteArray_inj.mp h
  have hpretty : r.json.pretty = r'.json.pretty := by
    simpa [Report.document] using htext
  exact Report.json_injective (Json.pretty_injective hpretty)

end DwarfUnits
