import DwarfUnits.Main
import DwarfUnits.Pattern.Group
import DwarfUnits.Program.Run
import DwarfUnits.Proofs.Cursor.Encoding
import DwarfUnits.Proofs.Cursor.Run
import DwarfUnits.Proofs.Decode.Displacement
import DwarfUnits.Proofs.Grammar.Declaration
import DwarfUnits.Proofs.Grammar.HeaderLength
import DwarfUnits.Proofs.Grammar.Root
import DwarfUnits.Proofs.Program.Formats
import DwarfUnits.Proofs.Report.Document
import DwarfUnits.Proofs.Report.Listing
import DwarfUnits.Proofs.Unit.Indirect
import DwarfUnits.Proofs.Unit.Prefix
import DwarfUnits.Proofs.Unit.Tables
import DwarfUnits.Proofs.Walk.Checked
import DwarfUnits.Proofs.Walk.Concatenation
import DwarfUnits.Proofs.Walk.Progress
import DwarfUnits.Proofs.Walk.RoundTrip
import DwarfUnits.Proofs.Walk.Soundness
import DwarfUnits.Proofs.Walk.Strictness
