import DwarfUnits.Program.Report
import DwarfUnits.Proofs.Container.Selection
import DwarfUnits.Proofs.Report.Writer
import DwarfUnits.Proofs.Walk.Steps

/-! Runs on one file in the two formats: they end alike, and write the units of one walk, the
listing as far as the walk comes and the document only if it comes to its end. -/
namespace DwarfUnits

/-- The items of a walk are its units, and then the error that ends it if there is one. -/
theorem Walker.map_item_steps_split (w : Walker) :
    w.steps.map WalkStep.item =
      (WalkStep.split w.steps).1.map .ok ++ ((WalkStep.split w.steps).2.map .error).toList := by
  fun_induction steps w with
  | case1 w h => rfl
  | case2 w t h ih =>
    cases hitem : t.item with
    | ok record => simpa [WalkStep.split, hitem] using ih
    | error e =>
      rw [steps_of_next_eq_none (steps_of_error h hitem)]
      simp [WalkStep.split, hitem]

namespace Program

/-- The debug sections of a file, given what came of reading it. -/
def sectionsOf (parser : Container.Parser) (content : Except Files.Fault ByteArray) :
    Except Error Sections := do
  let bytes ← content.mapError .file
  let map ← (Container.SectionMap.parse parser bytes).1
  map.toSections

theorem toSections_load (parser : Container.Parser) (path : String)
    (content : Except Files.Fault ByteArray) :
    (Container.SectionMap.load parser path content).1 >>= Container.SectionMap.toSections =
      sectionsOf parser content := by
  cases content with
  | error fault => rfl
  | ok bytes => rfl

/-- What is seen of a product from outside once its output is given up. -/
def Product.shown (p : Product) : String × Except Error Unit := (p.out.close, p.result)

theorem shown_after (p : Product) (notices : List Notice) : (p.after notices).shown = p.shown := rfl

/-- How a run ends that meets an error or none. -/
def ending : Option Error → Except Error Unit
  | none => .ok ()
  | some e => .error e

section Loop

variable {out : Writer} {w : Walker} {step : WalkStep}

/-! What one turn of the loop over the units does. -/

theorem writeUnits_of_none (h : w.next = none) :
    writeUnits out w = { out, result := .ok (), notices := [] } := by
  rw [writeUnits]
  split
  · rfl
  · simp_all

theorem writeUnits_of_error {e : Error} (h : w.next = some step) (he : step.item = .error e) :
    writeUnits out w = { out, result := .error e, notices := step.notices } := by
  rw [writeUnits]
  split <;> simp_all

theorem writeUnits_of_ok {record : UnitRecord} (h : w.next = some step)
    (hrecord : step.item = .ok record) :
    writeUnits out w = (writeUnits (out.writeUnit record) step.walker).after step.notices := by
  rw [writeUnits]
  split <;> simp_all

/-- The loop writes the units before the first error, and ends with that error. -/
theorem shown_writeUnits (out : Writer) (w : Walker) :
    (writeUnits out w).shown =
      (out.text ++ String.join ((WalkStep.split w.steps).1.map UnitRecord.listing),
        ending (WalkStep.split w.steps).2) := by
  fun_induction Walker.steps w generalizing out with
  | case1 w h =>
    rw [writeUnits_of_none h]
    simp [Product.shown, Writer.close_eq, WalkStep.split, ending]
  | case2 w step h ih =>
    cases hitem : step.item with
    | error e =>
      rw [writeUnits_of_error h hitem]
      simp [Product.shown, Writer.close_eq, WalkStep.split, hitem, ending]
    | ok record =>
      rw [writeUnits_of_ok h hitem, shown_after, ih, Writer.text_writeUnit]
      simp [WalkStep.split, hitem, String.join_cons, String.append_assoc]

end Loop

theorem shown_listUnits (sections : Sections) (strictness : Strictness) :
    (listUnits sections strictness).shown =
      (listing (WalkStep.split (Walker.start sections strictness).steps).1,
        ending (WalkStep.split (Walker.start sections strictness).steps).2) := by
  rw [listUnits, shown_writeUnits, Writer.text_write, Writer.text_empty, String.empty_append,
    listing]

theorem shown_writeDocument (sections : Sections) (strictness : Strictness) :
    (writeDocument sections strictness).shown =
      match WalkStep.split (Walker.start sections strictness).steps with
      | (records, none) => (Report.document { units := records }, .ok ())
      | (_, some e) => ("", .error e) := by
  unfold writeDocument walk
  dsimp only
  rcases WalkStep.split (Walker.start sections strictness).steps with ⟨records, _ | e⟩
  · rw [Product.shown, Writer.close_eq, Writer.text_writeReport, Writer.text_empty,
      String.empty_append]
  · rfl

/-- A run that finds no sections writes nothing and fails with what was in its way. -/
theorem shown_report (parser : Container.Parser) (arguments : Arguments)
    (content : Except Files.Fault ByteArray) :
    (report parser arguments content).shown =
      match sectionsOf parser content with
      | .error e => ("", .error e)
      | .ok sections =>
        (reportOn arguments.format sections (strictnessOf arguments.strict)).shown := by
  unfold report
  dsimp only
  rw [toSections_load]
  cases sectionsOf parser content with
  | error e => rfl
  | ok sections => rfl

theorem listing_eq (records : List UnitRecord) :
    listing records = "CompilationUnits:\n" ++ String.join (records.map UnitRecord.listing) := by
  have hheader : listingHeader = "CompilationUnits:\n" := by decide
  rw [listing, hheader]

/-- What two runs on one file leave behind, of which one lists units and one writes a document.
`found` is what came of looking for its sections. -/
structure Twins (found : Except Error Sections) (strictness : Strictness)
    (text json : Results) : Prop where
  status : text.status = json.status
  failure : text.failure = json.failure
  succeeds : text.status = 0 ↔
    ∃ sections report, found = .ok sections ∧ (walk sections strictness).1 = .ok report
  /-- Without sections nothing is written. -/
  unread : ∀ e, found = .error e → text.status = 1 ∧ text.failure = some ("Error: " ++ e.message) ∧
    text.output = "" ∧ json.output = ""
  /-- The units before the first error are listed; a document has all units or is not written. -/
  walked : ∀ sections, found = .ok sections → ∃ records error,
    (Walker.start sections strictness).steps.map WalkStep.item =
      records.map .ok ++ (error.map .error).toList ∧
    text.output = "CompilationUnits:\n" ++ String.join (records.map UnitRecord.listing) ∧
    (error = none → text.status = 0 ∧ text.failure = none ∧
      json.output = Report.document { units := records }) ∧
    ∀ e, error = some e → text.status = 1 ∧ text.failure = some ("Error: " ++ e.message) ∧
      json.output = ""

/-- What the result of a product comes to at the end of a run. -/
def Results.Ends (r : Results) : String × Except Error Unit → Prop
  | (output, .ok ()) => r.status = 0 ∧ r.failure = none ∧ r.output = output
  | (output, .error e) =>
    r.status = 1 ∧ r.failure = some ("Error: " ++ e.message) ∧ r.output = output

theorem perform_ends (parser : Container.Parser) (diagnose : List Notice → List Log.Line)
    (arguments : Arguments) (content : Except Files.Fault ByteArray) (log : Option OpenLog) :
    (perform parser diagnose arguments content (log.map .ok)).Ends
      (report parser arguments content).shown := by
  have hresults (p : Product) (logFile : Option Files.Place) :
      (p.results diagnose logFile).Ends p.shown := by
    unfold Product.shown
    cases hresult : p.result with
    | ok u => simp [Product.results, Results.Ends, hresult]
    | error e => simp [Product.results, Results.Ends, hresult, runFailure]
  cases log with
  | none => exact hresults _ _
  | some log => exact hresults ((report parser arguments content).after _) _

variable {sections : Sections} {strictness : Strictness} {text json : Results}

theorem twins_of_unread {e : Error} (htext : text.Ends ("", .error e))
    (hjson : json.Ends ("", .error e)) : Twins (.error e) strictness text json := by
  obtain ⟨hstatus, hfailure, houtput⟩ := htext
  obtain ⟨hstatus', hfailure', houtput'⟩ := hjson
  exact {
    status := hstatus.trans hstatus'.symm
    failure := hfailure.trans hfailure'.symm
    succeeds := by simp [hstatus]
    unread := by
      rintro _ ⟨⟩
      exact ⟨hstatus, hfailure, houtput, houtput'⟩
    walked := nofun }

theorem twins_of_end {records : List UnitRecord}
    (hitems : (Walker.start sections strictness).steps.map WalkStep.item = records.map .ok)
    (htext : text.Ends (listing records, .ok ()))
    (hjson : json.Ends (Report.document { units := records }, .ok ())) :
    Twins (.ok sections) strictness text json := by
  obtain ⟨hstatus, hfailure, houtput⟩ := htext
  obtain ⟨hstatus', hfailure', houtput'⟩ := hjson
  have hwalk : (walk sections strictness).1 = .ok { units := records } := walk_ok_iff.mpr hitems
  exact {
    status := hstatus.trans hstatus'.symm
    failure := hfailure.trans hfailure'.symm
    succeeds := ⟨fun _ => ⟨sections, _, rfl, hwalk⟩, fun _ => hstatus⟩
    unread := nofun
    walked := by
      rintro _ ⟨⟩
      refine ⟨records, none, by simpa using hitems, houtput.trans (listing_eq records), ?_, nofun⟩
      exact fun _ => ⟨hstatus, hfailure, houtput'⟩ }

theorem twins_of_stop {records : List UnitRecord} {e : Error}
    (hitems : (Walker.start sections strictness).steps.map WalkStep.item =
      records.map .ok ++ [.error e])
    (htext : text.Ends (listing records, .error e)) (hjson : json.Ends ("", .error e)) :
    Twins (.ok sections) strictness text json := by
  obtain ⟨hstatus, hfailure, houtput⟩ := htext
  obtain ⟨hstatus', hfailure', houtput'⟩ := hjson
  have hmem : Except.error e ∈ (Walker.start sections strictness).steps.map WalkStep.item := by
    simp [hitems]
  have hwalk : (walk sections strictness).1 = .error e :=
    walk_error_iff.mpr (by simpa using hmem)
  exact {
    status := hstatus.trans hstatus'.symm
    failure := hfailure.trans hfailure'.symm
    succeeds := by
      rw [hstatus]
      refine ⟨fun h => absurd h (by decide), ?_⟩
      rintro ⟨_, report, ⟨⟩, hreport⟩
      rw [hwalk] at hreport
      cases hreport
    unread := nofun
    walked := by
      rintro _ ⟨⟩
      refine ⟨records, some e, hitems, houtput.trans (listing_eq records), nofun, ?_⟩
      rintro _ ⟨⟩
      exact ⟨hstatus, hfailure, houtput'⟩ }

/-- Whatever stands in the file and however its container is opened, strict or not, runs in the two
formats end alike and with the same last words; they write the units of one walk, the listing as
far as it comes and the document only if it comes to its end. -/
theorem formats_agree (parser : Container.Parser) (diagnose : List Notice → List Log.Line)
    (arguments : Arguments) (content : Except Files.Fault ByteArray) (log : Option OpenLog) :
    Twins (sectionsOf parser content) (if arguments.strict then .strict else .lenient)
      (perform parser diagnose { arguments with format := .text } content (log.map .ok))
      (perform parser diagnose { arguments with format := .json } content (log.map .ok)) := by
  change Twins _ (strictnessOf arguments.strict) _ _
  have htext := perform_ends parser diagnose { arguments with format := .text } content log
  have hjson := perform_ends parser diagnose { arguments with format := .json } content log
  rw [shown_report] at htext hjson
  cases hfound : sectionsOf parser content with
  | error e =>
    rw [hfound] at htext hjson
    exact twins_of_unread htext hjson
  | ok sections =>
    rw [hfound] at htext hjson
    change Results.Ends _ (listUnits sections (strictnessOf arguments.strict)).shown at htext
    change Results.Ends _ (writeDocument sections (strictnessOf arguments.strict)).shown at hjson
    rw [shown_listUnits] at htext
    rw [shown_writeDocument] at hjson
    have hitems :=
      (Walker.start sections (strictnessOf arguments.strict)).map_item_steps_split
    cases hsplit : WalkStep.split
        (Walker.start sections (strictnessOf arguments.strict)).steps with
    | mk records error =>
      rw [hsplit] at htext hjson hitems
      cases error with
      | none => exact twins_of_end (by simpa using hitems) htext hjson
      | some e => exact twins_of_stop hitems htext hjson

/-- A unit without a root entry, and one whose line table declares nine bytes and has seven. -/
def Sample.image : Container.Image where
  order := .little
  sections := [
    .plain ".debug_info" ([8, 0, 0, 0, 4, 0, 0, 0, 0, 0, 8, 0]
      ++ [12, 0, 0, 0, 4, 0, 0, 0, 0, 0, 8, 1, 0, 0, 0, 0]),
    .plain ".debug_abbrev" [1, 0x11, 0, 0x10, 0x17, 0, 0],
    .plain ".debug_line" [0, 0, 0, 0, 2, 0, 9, 0, 0, 0, 1, 1, 0, 1, 1, 0, 0]]

/-- The first unit is listed although the second one ends the run. -/
example :
    let arguments : Arguments := { file := "", format := .text, strict := true, logLevel := none }
    let r := perform (fun _ => .ok Sample.image) (fun _ => []) arguments (.ok .empty) none
    (r.output, r.failure) = ("CompilationUnits:\n- Offset: 0\n  AbbrevOffset: 0\n",
      some ("Error: Invalid .debug_line header at offset 0. Header was supposed to be 9 bytes "
        ++ "long, but it is 7 bytes long")) := by
  decide +kernel

end Program
end DwarfUnits
