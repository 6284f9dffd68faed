import TokenRing.Main
import TokenRing.Proofs.Node.Distinct
import TokenRing.Proofs.Placement.Quota
import TokenRing.Proofs.Placement.QuotaProgress
import TokenRing.Proofs.SortedMap
import TokenRing.Proofs.Placement.Selection
import TokenRing.Proofs.Ring.Lookup
import TokenRing.Proofs.Placement.NetworkTopology
import TokenRing.Proofs.Ring.Filing
import TokenRing.Proofs.Ring.Registration
import TokenRing.Proofs.Ring.Conflict
import TokenRing.Proofs.Ring.Order
import TokenRing.Proofs.Placement.Routing
import TokenRing.Proofs.Placement.Replicas
import TokenRing.Proofs.Placement.SingleDatacenter
import TokenRing.Proofs.TokenRange
import TokenRing.Proofs.Ring.Insertion
import TokenRing.Proofs.Placement.Joining
import TokenRing.Proofs.Node.Renaming
import TokenRing.Proofs.Placement.Renaming
import TokenRing.Proofs.Keyspaces
import TokenRing.Proofs.Traversal
import TokenRing.Proofs.Text.Blank
import TokenRing.Proofs.Text.Decimal
import TokenRing.Proofs.Text.Hex
import TokenRing.Proofs.Text.HexBytes
import TokenRing.Proofs.TokenText
import TokenRing.Proofs.Json.Numeral
import TokenRing.Proofs.Json.Elements
import TokenRing.Proofs.Json.TextLiteral
import TokenRing.Proofs.Json.Reader
import TokenRing.Proofs.Json.Record
import TokenRing.Proofs.Json.Writer
import TokenRing.Proofs.Node.Json
import TokenRing.Proofs.CommandLine.Report
import TokenRing.Proofs.CommandLine.ReplicasJson
import TokenRing.Proofs.Placement.Warnings
import TokenRing.Proofs.Factor
import TokenRing.Proofs.Strategy
import TokenRing.Proofs.Node.Identifier
import TokenRing.Proofs.Keyspaces.Events
import TokenRing.Proofs.Ring.Index
import TokenRing.Proofs.Placement.Limits
import TokenRing.Proofs.Snapshot
import TokenRing.Proofs.Text.Utf8
import TokenRing.Proofs.CommandLine.Validity
import TokenRing.Proofs.Ring.Walk
import TokenRing.Proofs.TokenGrammar
import TokenRing.Proofs.CommandLine.Arguments
import TokenRing.Proofs.Placement.LoopInvariant
