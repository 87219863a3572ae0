import NamedFunctions.Bytes
import NamedFunctions.Computation
import NamedFunctions.ContentStore
import NamedFunctions.ContentStore.Indexed
import NamedFunctions.Daemon
import NamedFunctions.Daemon.CommandLine
import NamedFunctions.Daemon.Config
import NamedFunctions.Daemon.Console
import NamedFunctions.Daemon.DataDirectory
import NamedFunctions.Daemon.Interface
import NamedFunctions.Document
import NamedFunctions.Document.Packet
import NamedFunctions.Document.Relay
import NamedFunctions.Duration
import NamedFunctions.Face
import NamedFunctions.Face.Table
import NamedFunctions.Json
import NamedFunctions.Machine
import NamedFunctions.Machine.Environment
import NamedFunctions.Machine.Readback
import NamedFunctions.Main
import NamedFunctions.Name
import NamedFunctions.Name.Matching
import NamedFunctions.Name.Uri
import NamedFunctions.NonceTable
import NamedFunctions.NonceTable.Indexed
import NamedFunctions.Packet
import NamedFunctions.Packet.Matching
import NamedFunctions.Packet.Wire
import NamedFunctions.Peer
import NamedFunctions.Peer.SocketAddress
import NamedFunctions.PendingTable
import NamedFunctions.Relay
import NamedFunctions.Relay.Aging
import NamedFunctions.Relay.Config
import NamedFunctions.Relay.Delivery
import NamedFunctions.Relay.Error
import NamedFunctions.Relay.Forwarding
import NamedFunctions.Relay.Management
import NamedFunctions.Relay.Reduction
import NamedFunctions.RouteTable
import NamedFunctions.Suite
import NamedFunctions.Term
import NamedFunctions.Term.Parser
import NamedFunctions.Term.Token
import NamedFunctions.Text.Blank
import NamedFunctions.Text.Decimal
import NamedFunctions.Text.Numeral
import NamedFunctions.Text.Octets
import NamedFunctions.Text.Printable
import NamedFunctions.Text.Quoted
import NamedFunctions.Text.Utf8
import NamedFunctions.Tlv.Element
import NamedFunctions.Tlv.Number
import NamedFunctions.Toml
import NamedFunctions.Toml.Blank
import NamedFunctions.Toml.Date
import NamedFunctions.Toml.Quoted
import NamedFunctions.Toml.Table
import NamedFunctions.Toml.Word
import NamedFunctions.Proofs.ComputationTable
import NamedFunctions.Proofs.ContentStore
import NamedFunctions.Proofs.ContentStore.Capacity
import NamedFunctions.Proofs.ContentStore.Change
import NamedFunctions.Proofs.ContentStore.Eviction
import NamedFunctions.Proofs.ContentStore.Freshness
import NamedFunctions.Proofs.ContentStore.Indexed
import NamedFunctions.Proofs.ContentStore.Permanence
import NamedFunctions.Proofs.ContentStore.Refinement
import NamedFunctions.Proofs.ContentStore.Staleness
import NamedFunctions.Proofs.Daemon
import NamedFunctions.Proofs.Daemon.DataDirectory
import NamedFunctions.Proofs.Daemon.Pacing
import NamedFunctions.Proofs.Daemon.Sockets
import NamedFunctions.Proofs.Daemon.Startup
import NamedFunctions.Proofs.Daemon.Transmission
import NamedFunctions.Proofs.FaceTable
import NamedFunctions.Proofs.FaceTable.History
import NamedFunctions.Proofs.FaceTable.Layout
import NamedFunctions.Proofs.Machine.CallByName
import NamedFunctions.Proofs.Machine.Depth
import NamedFunctions.Proofs.Machine.Limit
import NamedFunctions.Proofs.Machine.Readback
import NamedFunctions.Proofs.Machine.Suspension
import NamedFunctions.Proofs.Name.Uri
import NamedFunctions.Proofs.NonceTable
import NamedFunctions.Proofs.NonceTable.Indexed
import NamedFunctions.Proofs.Packet.Matching
import NamedFunctions.Proofs.Packet.Reading
import NamedFunctions.Proofs.Packet.Wire
import NamedFunctions.Proofs.PendingTable.Evolution
import NamedFunctions.Proofs.PendingTable.Gathering
import NamedFunctions.Proofs.PendingTable.Tidy
import NamedFunctions.Proofs.Relay.Accounting
import NamedFunctions.Proofs.Relay.Aggregation
import NamedFunctions.Proofs.Relay.Answering
import NamedFunctions.Proofs.Relay.Availability
import NamedFunctions.Proofs.Relay.Cascade
import NamedFunctions.Proofs.Relay.Completion
import NamedFunctions.Proofs.Relay.Consistency
import NamedFunctions.Proofs.Relay.Continuation
import NamedFunctions.Proofs.Relay.Course
import NamedFunctions.Proofs.Relay.Delivery
import NamedFunctions.Proofs.Relay.Dispatch
import NamedFunctions.Proofs.Relay.FaceLifetime
import NamedFunctions.Proofs.Relay.Invariant
import NamedFunctions.Proofs.Relay.Journal
import NamedFunctions.Proofs.Relay.Layout
import NamedFunctions.Proofs.Relay.Lifetime
import NamedFunctions.Proofs.Relay.Operation
import NamedFunctions.Proofs.Relay.Pinning
import NamedFunctions.Proofs.Relay.Posting
import NamedFunctions.Proofs.Relay.Provenance
import NamedFunctions.Proofs.Relay.Queueing
import NamedFunctions.Proofs.Relay.Reduction
import NamedFunctions.Proofs.Relay.Refusal
import NamedFunctions.Proofs.Relay.Replay
import NamedFunctions.Proofs.Relay.Requests
import NamedFunctions.Proofs.Relay.Residue
import NamedFunctions.Proofs.Relay.Resolution
import NamedFunctions.Proofs.Relay.Retransmission
import NamedFunctions.Proofs.Relay.Routing
import NamedFunctions.Proofs.Relay.Sending
import NamedFunctions.Proofs.Relay.Settlement
import NamedFunctions.Proofs.Relay.Staleness
import NamedFunctions.Proofs.Relay.Stock
import NamedFunctions.Proofs.Relay.Storage
import NamedFunctions.Proofs.Relay.Stranding
import NamedFunctions.Proofs.Relay.Suites
import NamedFunctions.Proofs.Relay.Traffic
import NamedFunctions.Proofs.Relay.Upkeep
import NamedFunctions.Proofs.Relay.Usage
import NamedFunctions.Proofs.RouteTable
import NamedFunctions.Proofs.RouteTable.Map
import NamedFunctions.Proofs.Term.Grammar
import NamedFunctions.Proofs.Term.Nameless
import NamedFunctions.Proofs.Term.Printing
import NamedFunctions.Proofs.Term.Reading
import NamedFunctions.Proofs.Term.Substitution
import NamedFunctions.Proofs.Term.WeakHead
import NamedFunctions.Proofs.Tlv.Cursor
import NamedFunctions.Proofs.Tlv.Element
