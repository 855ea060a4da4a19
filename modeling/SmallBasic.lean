import SmallBasic.Main
import SmallBasic.Proofs.Acceptance
import SmallBasic.Proofs.Arrival
import SmallBasic.Proofs.ArrayPaths
import SmallBasic.Proofs.CaselessRuns
import SmallBasic.Proofs.Finality
import SmallBasic.Proofs.Layout
import SmallBasic.Proofs.Parking
import SmallBasic.Proofs.Piping
import SmallBasic.Proofs.Returns
import SmallBasic.Proofs.RoundTrip
import SmallBasic.Proofs.Standstill
import SmallBasic.Proofs.Updates
import SmallBasic.Proofs.Coverage
import SmallBasic.Proofs.Phrases
import SmallBasic.Proofs.Recognition
import SmallBasic.Proofs.TimeShift
import SmallBasic.Proofs.Words
import SmallBasic.Proofs.Numerals
import SmallBasic.Proofs.Respacing
import SmallBasic.Proofs.Branching
import SmallBasic.Proofs.Failures
import SmallBasic.Proofs.Refusals
import SmallBasic.Proofs.Reports
import SmallBasic.Proofs.Firing
import SmallBasic.Proofs.NamedArrays
import SmallBasic.Proofs.Searching
import SmallBasic.Proofs.Storing
import SmallBasic.Proofs.Overflow
import SmallBasic.Proofs.Counting
import SmallBasic.Proofs.Editing
