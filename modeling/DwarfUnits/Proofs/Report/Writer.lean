import DwarfUnits.Report.Writer

/-! Buffered outputs: whatever is held back, and wherever the output is given up, all text that was
written leaves it in order. -/
namespace DwarfUnits

theorem unlines_cons (line : String) (lines : List String) :
    unlines (line :: lines) = line ++ "\n" ++ unlines lines := by
  simp [unlines, String.join_cons]

namespace Writer

/-- All that was written, whether it has left or not. -/
def text (w : Writer) : String := w.sent ++ w.held

theorem text_empty : empty.text = "" := rfl

theorem text_write (w : Writer) (s : String) : (w.write s).text = w.text ++ s := by
  unfold write
  dsimp only
  by_cases hfits : w.capacity < w.held.utf8ByteSize + s.utf8ByteSize
  · rw [if_pos hfits]
    split
    · simp [text, flush]
    · simp [text, flush]
  · rw [if_neg hfits]
    split
    · -- Nothing is held, so the text passes nothing.
      have hheld : w.held = "" := String.utf8ByteSize_eq_zero_iff.mp (by omega)
      simp [text, hheld]
    · exact (String.append_assoc ..).symm

theorem text_writeLines (w : Writer) (lines : List String) :
    (w.writeLines lines).text = w.text ++ unlines lines := by
  induction lines generalizing w with
  | nil => exact String.append_empty.symm
  | cons line lines ih =>
    have hstep : w.writeLines (line :: lines) = ((w.write line).write "\n").writeLines lines := rfl
    rw [hstep, ih, text_write, text_write, unlines_cons]
    simp only [String.append_assoc]

theorem text_writeUnit (w : Writer) (record : UnitRecord) :
    (w.writeUnit record).text = w.text ++ record.listing := w.text_writeLines record.lines

theorem text_writeReport (w : Writer) (report : Report) :
    (w.writeReport report).text = w.text ++ report.document := by
  rw [writeReport, text_write, text_write, Report.document, String.append_assoc]

theorem close_eq (w : Writer) : w.close = w.text := rfl

end Writer
end DwarfUnits
