import Switchboard.Listing
import Switchboard.Main
import Switchboard.Proofs.Console.Check
import Switchboard.Proofs.Dispatch.CallTree
import Switchboard.Proofs.Dispatch.Growing
import Switchboard.Proofs.Dispatch.Recovery
import Switchboard.Proofs.Dispatch.Reporting
import Switchboard.Proofs.NormalText
import Switchboard.Proofs.Pairs
import Switchboard.Proofs.Printing.Joining
import Switchboard.Proofs.Printing.RoundTrip
import Switchboard.Proofs.Registry.Agreement
import Switchboard.Proofs.Registry.Binding
import Switchboard.Proofs.Registry.Depth
import Switchboard.Proofs.Registry.Inlining
import Switchboard.Proofs.Registry.Marks
import Switchboard.Proofs.Registry.Repeated
import Switchboard.Proofs.Registry.Sharing
import Switchboard.Proofs.Registry.Unknown
import Switchboard.Proofs.Rendering
import Switchboard.Proofs.Route.Repetition
import Switchboard.Proofs.Rule.Descriptions
import Switchboard.Proofs.Rule.Provenance
import Switchboard.Proofs.Value.Equivalence
import Switchboard.Proofs.Value.Numeric
import Switchboard.Value.Equality
