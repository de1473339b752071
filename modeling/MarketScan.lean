import MarketScan.CommandLine
import MarketScan.Main
import MarketScan.Query.Session
import MarketScan.Proofs.Query.History
import MarketScan.Proofs.Query.Paging
import MarketScan.Proofs.Json.Scalar
import MarketScan.Proofs.Json.Shape
import MarketScan.Proofs.Json.RoundTrip
import MarketScan.Proofs.Query.Contents
import MarketScan.Proofs.Filter.Plain
import MarketScan.Proofs.Query.RoundTrip
import MarketScan.Proofs.Query.Identity
import MarketScan.Proofs.Except
import MarketScan.Proofs.Query.Schema
import MarketScan.Proofs.Reply.Shape
import MarketScan.Proofs.Scan
import MarketScan.Proofs.Reply.RoundTrip
import MarketScan.Proofs.Filter.Building
import MarketScan.Proofs.Query.Lineage
import MarketScan.Proofs.Json.Steps
import MarketScan.Proofs.Http.Exchange
import MarketScan.Proofs.Http.Headers
import MarketScan.Proofs.CommandLine
import MarketScan.Proofs.Json.Fuel
import MarketScan.Proofs.Json.Same
import MarketScan.Proofs.Query.Same
import MarketScan.Proofs.Settings.Cookies
import MarketScan.Proofs.Settings.Environment
import MarketScan.Proofs.Settings.Origin
import MarketScan.Proofs.Numeric.Interval
import MarketScan.Proofs.Numeric.Layout
import MarketScan.Proofs.Json.Injective
import MarketScan.Proofs.Reply.Table
import MarketScan.Proofs.Settings.Variable
import MarketScan.Proofs.Toml.Distinct
import MarketScan.Proofs.Settings.Layers
import MarketScan.Proofs.Filter.Tests
import MarketScan.Proofs.Readable
import MarketScan.Proofs.Query.Commute
import MarketScan.Proofs.Numeric.Rounding
import MarketScan.Proofs.Numeric.Shortest
import MarketScan.Proofs.Json.Float
import MarketScan.Proofs.Json.Accepted
import MarketScan.Proofs.Query.Depth
import MarketScan.Proofs.Vocabulary
import MarketScan.Proofs.Reply.Faults
