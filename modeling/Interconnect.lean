import Interconnect.Text.Letters
import Interconnect.Diagnostic.Policy
import Interconnect.Diagnostic.Sink
import Interconnect.Diagnostic.Rendering
import Interconnect.Collection.OrderedMap
import Interconnect.Collection.Arena
import Interconnect.Collection.StringTable
import Interconnect.Object.Basic
import Interconnect.Store.Error
import Interconnect.Store.Attribute
import Interconnect.Store.Module
import Interconnect.Store.Part
import Interconnect.Store.Net
import Interconnect.Route.Naming
import Interconnect.Route.Merge
import Interconnect.Request.Basic
import Interconnect.Session.Basic
import Interconnect.Settings.Basic
import Interconnect.Diagnostic.Decoding
import Interconnect.Settings.Decoding
import Interconnect.Proofs.Store.Hierarchy
import Interconnect.Proofs.Store.Constancy
import Interconnect.Proofs.Store.Mirroring
import Interconnect.Proofs.Request.Connection
import Interconnect.Proofs.Request.Spanning
import Interconnect.Proofs.Request.Completion
import Interconnect.Proofs.Request.Verdict
import Interconnect.Proofs.Route.Separation
import Interconnect.Proofs.Route.Reducing
import Interconnect.Proofs.Route.Ordering
import Interconnect.Proofs.Route.Summing
import Interconnect.Proofs.Route.Uniting
import Interconnect.Proofs.Route.Unfolding
import Interconnect.Proofs.Request.Attribution
import Interconnect.Proofs.Request.Polarity
import Interconnect.Proofs.Route.Forks
import Interconnect.Proofs.Request.Distinctness
import Interconnect.Proofs.Request.Coexistence
import Interconnect.Proofs.Store.Recording
import Interconnect.Proofs.Procedure.Aggregation
import Interconnect.Proofs.Procedure.Spanning
import Interconnect.Proofs.Procedure.Realization
import Interconnect.Proofs.Procedure.Command
import Interconnect.Proofs.Procedure.Safety
import Interconnect.Proofs.Request.Adjusting
import Interconnect.Proofs.Request.Parametrization
import Interconnect.Proofs.Store.Membership
import Interconnect.Proofs.Request.Membership
import Interconnect.Proofs.Request.Routing
import Interconnect.Proofs.Request.Minimality
import Interconnect.Proofs.Request.Making
import Interconnect.Proofs.Request.Visiting
import Interconnect.Proofs.Route.Meeting
import Interconnect.Proofs.Request.Tracing
import Interconnect.Proofs.Request.Registration
import Interconnect.Proofs.Request.Direction
import Interconnect.Proofs.Diagnostic.Accounting
import Interconnect.Proofs.Request.Framing
import Interconnect.Proofs.Store.Lasting
import Interconnect.Proofs.Request.Staying
import Interconnect.Proofs.Request.Persistence
import Interconnect.Proofs.Request.Repetition
import Interconnect.Proofs.Store.Containment
import Interconnect.Proofs.Route.Carrying
import Interconnect.Proofs.Request.Grafting
import Interconnect.Proofs.Request.Serving
import Interconnect.Proofs.Store.Numbering
import Interconnect.Proofs.Request.Naming
import Interconnect.Proofs.Diagnostic.Unambiguity
import Interconnect.Proofs.Settings.Validation
