import Telemetry.Agent.HttpClient
import Telemetry.Agent.Job
import Telemetry.Agent.Pool
import Telemetry.Agent.RpcClient
import Telemetry.Agent.Schedule
import Telemetry.Agent.Sender
import Telemetry.Binary64.Basic
import Telemetry.Collector.Host
import Telemetry.Collector.Poll
import Telemetry.Config.Agent
import Telemetry.Config.Fields
import Telemetry.Config.Server
import Telemetry.Crypto.Base64
import Telemetry.Crypto.Der
import Telemetry.Crypto.KeyFile
import Telemetry.Crypto.Oaep
import Telemetry.Crypto.Pem
import Telemetry.Crypto.Rsa
import Telemetry.Crypto.Sha256
import Telemetry.Crypto.Signature
import Telemetry.Decimal.Basic
import Telemetry.Decimal.Layout
import Telemetry.Decimal.Literal
import Telemetry.Decimal.Shortest
import Telemetry.Fault
import Telemetry.Gzip.Inflate
import Telemetry.Gzip.Member
import Telemetry.Http.Encoding
import Telemetry.Http.Log
import Telemetry.Http.Message
import Telemetry.Http.Route
import Telemetry.Json.Number
import Telemetry.Json.Scan
import Telemetry.Json.Text
import Telemetry.Metric.Basic
import Telemetry.Metric.Report
import Telemetry.Metric.ReportJson
import Telemetry.Net.Address
import Telemetry.Net.Subnet
import Telemetry.Proofs.Agent.Cycles
import Telemetry.Proofs.Agent.Deadlines
import Telemetry.Proofs.Agent.PoolProgress
import Telemetry.Proofs.Agent.PoolRuns
import Telemetry.Proofs.Agent.PoolSteps
import Telemetry.Proofs.Agent.ScheduleEnds
import Telemetry.Proofs.Agent.ScheduleSteps
import Telemetry.Proofs.Agent.SenderEnds
import Telemetry.Proofs.Agent.SenderJobs
import Telemetry.Proofs.Agent.SenderLogs
import Telemetry.Proofs.Agent.Shipment
import Telemetry.Proofs.Agent.Totals
import Telemetry.Proofs.Agent.Transport
import Telemetry.Proofs.Collector.Polls
import Telemetry.Proofs.Collector.Samples
import Telemetry.Proofs.Collector.SharedUpserts
import Telemetry.Proofs.Config.Redaction
import Telemetry.Proofs.Crypto.Blocks
import Telemetry.Proofs.Crypto.DerTexts
import Telemetry.Proofs.Crypto.KeyPairs
import Telemetry.Proofs.Crypto.KeySizes
import Telemetry.Proofs.Crypto.LoadedKeys
import Telemetry.Proofs.Crypto.Padding
import Telemetry.Proofs.Crypto.PemTexts
import Telemetry.Proofs.Crypto.Signature
import Telemetry.Proofs.Crypto.SignatureTexts
import Telemetry.Proofs.Crypto.WholeBlocks
import Telemetry.Proofs.Decimal.ReadBack
import Telemetry.Proofs.Gzip.RoundTrip
import Telemetry.Proofs.Http.Excerpts
import Telemetry.Proofs.Http.Logging
import Telemetry.Proofs.Json.Grammar
import Telemetry.Proofs.Json.Numbers
import Telemetry.Proofs.Json.Parts
import Telemetry.Proofs.Json.Scanning
import Telemetry.Proofs.Json.Strings
import Telemetry.Proofs.Json.Trees
import Telemetry.Proofs.Metric.Names
import Telemetry.Proofs.Metric.ReportJson
import Telemetry.Proofs.Metric.ReportMembers
import Telemetry.Proofs.Metric.Reports
import Telemetry.Proofs.Metric.TypedTexts
import Telemetry.Proofs.Metric.Updates
import Telemetry.Proofs.Metric.WellFormed
import Telemetry.Proofs.Metric.WireFormat
import Telemetry.Proofs.Net.AddressTexts
import Telemetry.Proofs.Net.Numerals
import Telemetry.Proofs.Net.Subnets
import Telemetry.Proofs.Retry.Calls
import Telemetry.Proofs.Retry.Turns
import Telemetry.Proofs.Server.Authorization
import Telemetry.Proofs.Server.EncryptedCalls
import Telemetry.Proofs.Server.IndexPage
import Telemetry.Proofs.Server.Recovery
import Telemetry.Proofs.Server.Requests
import Telemetry.Proofs.Server.Signatures
import Telemetry.Proofs.Server.SignedBodies
import Telemetry.Proofs.Server.Transports
import Telemetry.Proofs.Service.Batch
import Telemetry.Proofs.Service.Calls
import Telemetry.Proofs.Service.Linearization
import Telemetry.Proofs.Service.Refusals
import Telemetry.Proofs.Service.StoredMetrics
import Telemetry.Proofs.Service.Upsert
import Telemetry.Proofs.Store.BackendAgreement
import Telemetry.Proofs.Store.Batch
import Telemetry.Proofs.Store.ConcurrentSaves
import Telemetry.Proofs.Store.DiskSteps
import Telemetry.Proofs.Store.DumpGrammar
import Telemetry.Proofs.Store.DumpRoundTrip
import Telemetry.Proofs.Store.DumpText
import Telemetry.Proofs.Store.LedgerOrder
import Telemetry.Proofs.Store.LedgerSteps
import Telemetry.Proofs.Store.Merge
import Telemetry.Proofs.Store.Operation
import Telemetry.Proofs.Store.Reachable
import Telemetry.Proofs.Store.Restore
import Telemetry.Proofs.Store.RestoredKeys
import Telemetry.Proofs.Store.SaveSteps
import Telemetry.Proofs.Store.TableImage
import Telemetry.Proofs.Store.TableRuns
import Telemetry.Proofs.Store.Totals
import Telemetry.Proofs.Text.Integers
import Telemetry.Proofs.Text.Octets
import Telemetry.Proofs.Text.Split
import Telemetry.Proofs.Traversal
import Telemetry.Proofs.Wire.Fields
import Telemetry.Proofs.Wire.Messages
import Telemetry.Retry.Policy
import Telemetry.Retry.Run
import Telemetry.Rpc.Service
import Telemetry.Rpc.Status
import Telemetry.Server.Answer
import Telemetry.Server.Guard
import Telemetry.Server.State
import Telemetry.Service.Basic
import Telemetry.Store.Autosave
import Telemetry.Store.Backend
import Telemetry.Store.Basic
import Telemetry.Store.Database
import Telemetry.Store.Disk
import Telemetry.Store.Ledger
import Telemetry.Store.Snapshot
import Telemetry.Store.Table
import Telemetry.Text.Blank
import Telemetry.Text.Bytes
import Telemetry.Text.Integer
import Telemetry.Text.Split
import Telemetry.Toml.Document
import Telemetry.Toml.Item
import Telemetry.Toml.Scalar
import Telemetry.Toml.Text
import Telemetry.Wire.Field
import Telemetry.Wire.Message
