import SourceText.Location.Json
import SourceText.Proofs.CurrentMatch
import SourceText.Proofs.DecimalValue
import SourceText.Proofs.Enumeration
import SourceText.Proofs.Failure
import SourceText.Proofs.Literal
import SourceText.Segment.Description
import SourceText.Proofs.Alike
import SourceText.Proofs.Interchange
import SourceText.Proofs.Ahead
import SourceText.Proofs.Confined
import SourceText.Proofs.Rows
import SourceText.Proofs.Marks
import SourceText.Proofs.WholeRegion
import SourceText.Proofs.Limits
import SourceText.Proofs.Cut
import SourceText.Proofs.Lines
import SourceText.Proofs.Machine.Visits
import SourceText.Proofs.Machine.Calls
import SourceText.Proofs.Machine.Coordinates
import SourceText.Proofs.Machine.Rows
import SourceText.Proofs.Machine.Failure
import SourceText.Proofs.Skipping
import SourceText.Proofs.Looks
import SourceText.Proofs.Cache
import SourceText.Proofs.BreakReader
import SourceText.Proofs.Neighbours
import SourceText.Proofs.Trim
import SourceText.Proofs.Refusals
import SourceText.Proofs.Json.Location
