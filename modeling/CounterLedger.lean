import CounterLedger.Address
import CounterLedger.Bytes
import CounterLedger.CommandLine.Command
import CounterLedger.CommandLine.Dispatch
import CounterLedger.CommandLine.Draft
import CounterLedger.CommandLine.Flag
import CounterLedger.CommandLine.Help
import CounterLedger.CommandLine.Level
import CounterLedger.CommandLine.Misuse
import CounterLedger.CommentLength
import CounterLedger.Console.Command
import CounterLedger.Console.Run
import CounterLedger.Contract
import CounterLedger.Contract.Sample
import CounterLedger.Counter.Handler
import CounterLedger.Counter.Message
import CounterLedger.Counter.State
import CounterLedger.Counter.Version
import CounterLedger.Database.Bucket
import CounterLedger.Database.Image
import CounterLedger.Database.Session
import CounterLedger.Database.Transaction
import CounterLedger.Directory
import CounterLedger.Error
import CounterLedger.Host.Basic
import CounterLedger.Host.Ledger
import CounterLedger.Json.Basic
import CounterLedger.Json.Field
import CounterLedger.Json.Printer
import CounterLedger.Json.Reader
import CounterLedger.Log
import CounterLedger.Main
import CounterLedger.Metrics
import CounterLedger.Proofs.Counter.Codec
import CounterLedger.Proofs.Counter.Decoding
import CounterLedger.Proofs.Counter.Machine
import CounterLedger.Proofs.Counter.Owner
import CounterLedger.Proofs.Counter.Record
import CounterLedger.Proofs.Counter.Refinement
import CounterLedger.Proofs.Host.Count
import CounterLedger.Proofs.Host.Erasure
import CounterLedger.Proofs.Host.Run
import CounterLedger.Proofs.Host.Session
import CounterLedger.Proofs.Host.Storage
import CounterLedger.Proofs.Json.Grammar
import CounterLedger.Proofs.Json.RoundTrip
import CounterLedger.Proofs.Namespace
import CounterLedger.Proofs.Service.BackEnds
import CounterLedger.Proofs.Service.Guard
import CounterLedger.Proofs.Service.Isolation
import CounterLedger.Proofs.Service.Memory
import CounterLedger.Proofs.Service.Run
import CounterLedger.Proofs.Service.Settlement
import CounterLedger.Proofs.Store.Alike
import CounterLedger.Proofs.Store.Edits
import CounterLedger.Proofs.Store.Memory
import CounterLedger.Proofs.Store.Nested
import CounterLedger.Proofs.Store.Origin
import CounterLedger.Proofs.Store.Program
import CounterLedger.Proofs.Store.Staging
import CounterLedger.Proofs.Text.Fold
import CounterLedger.Proofs.Text.Numeral
import CounterLedger.Proofs.Text.Utf8
import CounterLedger.Proofs.Transcript
import CounterLedger.Response
import CounterLedger.Service
import CounterLedger.Settings
import CounterLedger.Sha256
import CounterLedger.Store.Basic
import CounterLedger.Store.Depot
import CounterLedger.Store.Namespace
import CounterLedger.Store.Overlay
import CounterLedger.Store.Program
import CounterLedger.Table
import CounterLedger.Text.Base64
import CounterLedger.Text.Blank
import CounterLedger.Text.Fold
import CounterLedger.Text.Numeral
import CounterLedger.Text.Printable
import CounterLedger.Text.Quoted
import CounterLedger.Text.Utf8
import CounterLedger.Watcher
import CounterLedger.Watcher.Session
import CounterLedger.Yaml.Block
import CounterLedger.Yaml.Document
import CounterLedger.Yaml.Node
import CounterLedger.Yaml.Number
import CounterLedger.Yaml.Property
import CounterLedger.Yaml.Scalar
import CounterLedger.Yaml.Source
import CounterLedger.Yaml.Tag
import CounterLedger.Yaml.Timestamp
import CounterLedger.Yaml.Token
import CounterLedger.Proofs.Host.Bookkeeping
import CounterLedger.Proofs.Host.Delivery
import CounterLedger.Proofs.Counter.Stream
import CounterLedger.Proofs.Counter.Transition
import CounterLedger.Proofs.Console.Arguments
import CounterLedger.Proofs.Console.Record
import CounterLedger.Proofs.Console.Refinement
import CounterLedger.Proofs.Layout
import CounterLedger.Proofs.Text.Repair
import CounterLedger.Proofs.Counter.Persistence
import CounterLedger.Proofs.Watcher.Members
import CounterLedger.Proofs.Watcher.Notification
import CounterLedger.Proofs.Watcher.Session
import CounterLedger.Proofs.CommandLine.Tree
import CounterLedger.Proofs.Database.Scan
import CounterLedger.Proofs.Database.Session
import CounterLedger.Proofs.Store.Commit
import CounterLedger.Proofs.Table
