import Edm.Command.Run
import Edm.Main
import Edm.Proofs.Xml.Plain
import Edm.Proofs.Xml.Printer
import Edm.Proofs.Xml.Reader
import Edm.Proofs.Xml.RoundTrip
import Edm.Proofs.Description.Grammar
import Edm.Proofs.Description.Reading
import Edm.Proofs.Loading.Acceptance
import Edm.Proofs.Document.Structure
import Edm.Proofs.Loading.Failure
import Edm.Proofs.Loading.Registry
import Edm.Proofs.Loading.Listed
import Edm.Proofs.Loading.Scope
import Edm.Proofs.Graph.Reachable
import Edm.Proofs.Loading.Consistent
import Edm.Proofs.Loading.Resolved
import Edm.Proofs.Loading.Unions
import Edm.Proofs.Xml.Legal
import Edm.Proofs.Document.Elements
import Edm.Proofs.Document.References
import Edm.Proofs.Document.Written
import Edm.Proofs.Document.Rendered
import Edm.Proofs.Decorating.Outcome
import Edm.Proofs.Decorating.Bound
import Edm.Proofs.Document.Decorated
import Edm.Proofs.Document.Keys
import Edm.Proofs.Loading.Closed
import Edm.Proofs.Loading.Reordered
import Edm.Proofs.Graph.Alike
import Edm.Proofs.Loading.Corresponding
import Edm.Proofs.Document.Order
import Edm.Proofs.Document.Consulted
import Edm.Proofs.Document.Interleaved
import Edm.Proofs.Loading.Decorations
import Edm.Proofs.Decorating.Rejected
import Edm.Proofs.Document.Reported
import Edm.Proofs.Document.Excluded
import Edm.Proofs.Command.ExitCode
import Edm.Proofs.Loading.Undecorated
import Edm.Proofs.Document.Properties
import Edm.Proofs.Document.Fallbacks
import Edm.Proofs.Document.Targets
import Edm.Proofs.Document.EntitySets
import Edm.Proofs.Document.RouteSegments
import Edm.Proofs.Document.Redecorated
import Edm.Proofs.Loading.Redecorated
import Edm.Proofs.Xml.Reformatted
import Edm.Proofs.Annotating.History
import Edm.Proofs.Graph.Containment
import Edm.Proofs.Graph.Calls
import Edm.Proofs.Graph.Naming
import Edm.Proofs.Loading.Nested
import Edm.Proofs.Document.Labels
