import Offside.Host
import Offside.Proofs.Branches
import Offside.Proofs.RoundTrip
import Offside.Proofs.Lines
import Offside.Proofs.Nesting
import Offside.Proofs.Legality
import Offside.Proofs.Foresight
import Offside.Proofs.Measurement
import Offside.Proofs.Munch
import Offside.Proofs.LineEnding
import Offside.Proofs.Truncation
import Offside.Proofs.Openers
import Offside.Proofs.CommentGuard
import Offside.Proofs.SnapshotBytes
import Offside.Proofs.Influence
import Offside.Proofs.Calls
import Offside.Proofs.Draining
import Offside.Proofs.Diagnostics
import Offside.Proofs.QuoteExchange
import Offside.Proofs.ForeignDelimiter
import Offside.Proofs.LiteralLineEnding
import Offside.Proofs.Buffer
import Offside.Proofs.Walks
import Offside.Proofs.Torn
import Offside.Proofs.Spans
import Offside.Proofs.Slices
