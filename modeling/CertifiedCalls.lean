import CertifiedCalls.Bytes
import CertifiedCalls.Call.Basic
import CertifiedCalls.Call.Mapper
import CertifiedCalls.Call.Platform
import CertifiedCalls.Call.Query
import CertifiedCalls.Call.Retry
import CertifiedCalls.Call.Update
import CertifiedCalls.Canister.Base32
import CertifiedCalls.Canister.Id
import CertifiedCalls.Canister.Request
import CertifiedCalls.Certificate.HashTree
import CertifiedCalls.Certificate.Leb128
import CertifiedCalls.Certificate.RequestStatus
import CertifiedCalls.Codec.Conform
import CertifiedCalls.Codec.Layout
import CertifiedCalls.Codec.Message
import CertifiedCalls.Config.Agent
import CertifiedCalls.Config.Logging
import CertifiedCalls.Config.Stored
import CertifiedCalls.Config.Upload
import CertifiedCalls.Decimal.Binary64
import CertifiedCalls.Decimal.Shortest
import CertifiedCalls.Digest.Crc32
import CertifiedCalls.Digest.Sha256
import CertifiedCalls.Digest.Sha3
import CertifiedCalls.Event
import CertifiedCalls.Failure
import CertifiedCalls.Failure.Classification
import CertifiedCalls.Failure.Classifier
import CertifiedCalls.Fields
import CertifiedCalls.Json.Format
import CertifiedCalls.Json.Item
import CertifiedCalls.Json.Numeral
import CertifiedCalls.MessagePack.Format
import CertifiedCalls.MessagePack.Head
import CertifiedCalls.MessagePack.Item
import CertifiedCalls.Proofs.Call.Asking
import CertifiedCalls.Proofs.Call.Authentic
import CertifiedCalls.Proofs.Call.Diagnostics
import CertifiedCalls.Proofs.Call.Discipline
import CertifiedCalls.Proofs.Call.Events
import CertifiedCalls.Proofs.Call.KeyFetching
import CertifiedCalls.Proofs.Call.Orderly
import CertifiedCalls.Proofs.Call.Paths
import CertifiedCalls.Proofs.Call.PollLog
import CertifiedCalls.Proofs.Call.QueryCourse
import CertifiedCalls.Proofs.Call.ReadingLog
import CertifiedCalls.Proofs.Call.Retrying
import CertifiedCalls.Proofs.Call.UpdateCourse
import CertifiedCalls.Proofs.Call.UpdateLog
import CertifiedCalls.Proofs.Canister.Base32
import CertifiedCalls.Proofs.Canister.Text
import CertifiedCalls.Proofs.Certificate.Balanced
import CertifiedCalls.Proofs.Certificate.CanonicalGroups
import CertifiedCalls.Proofs.Certificate.Children
import CertifiedCalls.Proofs.Certificate.Completion
import CertifiedCalls.Proofs.Certificate.Groups
import CertifiedCalls.Proofs.Certificate.Issued
import CertifiedCalls.Proofs.Certificate.Leb128
import CertifiedCalls.Proofs.Certificate.Lookup
import CertifiedCalls.Proofs.Certificate.Row
import CertifiedCalls.Proofs.Certificate.Views
import CertifiedCalls.Proofs.Codec.Absence
import CertifiedCalls.Proofs.Codec.Acceptance
import CertifiedCalls.Proofs.Codec.Canonical
import CertifiedCalls.Proofs.Codec.Complaints
import CertifiedCalls.Proofs.Codec.Conformance
import CertifiedCalls.Proofs.Codec.Evolution
import CertifiedCalls.Proofs.Codec.Framing
import CertifiedCalls.Proofs.Codec.Induction
import CertifiedCalls.Proofs.Codec.Integers
import CertifiedCalls.Proofs.Codec.LongNames
import CertifiedCalls.Proofs.Codec.Normal
import CertifiedCalls.Proofs.Codec.Places
import CertifiedCalls.Proofs.Codec.RecordLayout
import CertifiedCalls.Proofs.Codec.RoundTrip
import CertifiedCalls.Proofs.Codec.Sendable
import CertifiedCalls.Proofs.Codec.Trimming
import CertifiedCalls.Proofs.Codec.Versions
import CertifiedCalls.Proofs.Decimal.Rounding
import CertifiedCalls.Proofs.Decimal.WholeNumbers
import CertifiedCalls.Proofs.Decimal.Width
import CertifiedCalls.Proofs.Failure.LetterCase
import CertifiedCalls.Proofs.Failure.Order
import CertifiedCalls.Proofs.Failure.Sizes
import CertifiedCalls.Proofs.Failure.Statuses
import CertifiedCalls.Proofs.MessagePack.Head
import CertifiedCalls.Proofs.MessagePack.Reading
import CertifiedCalls.Proofs.MessagePack.RoundTrip
import CertifiedCalls.Proofs.MessagePack.Shown
import CertifiedCalls.Proofs.NamedFields
import CertifiedCalls.Proofs.Octets
import CertifiedCalls.Proofs.Outcomes
import CertifiedCalls.Proofs.Text.Finding
import CertifiedCalls.Proofs.Text.LetterCase
import CertifiedCalls.Proofs.Text.Letters
import CertifiedCalls.Proofs.Text.Phrases
import CertifiedCalls.Proofs.Time.Delays
import CertifiedCalls.Proofs.Time.Doubling
import CertifiedCalls.Proofs.Time.Growth
import CertifiedCalls.Proofs.Trust.Desk
import CertifiedCalls.Proofs.Trust.Lives
import CertifiedCalls.Proofs.Trust.Phases
import CertifiedCalls.Proofs.Trust.Pools
import CertifiedCalls.Proofs.Trust.Record
import CertifiedCalls.Proofs.Trust.Root
import CertifiedCalls.Proofs.Trust.Sessions
import CertifiedCalls.Proofs.Trust.Turns
import CertifiedCalls.Proofs.Upload.Accounted
import CertifiedCalls.Proofs.Upload.Attempts
import CertifiedCalls.Proofs.Upload.ChunkLedger
import CertifiedCalls.Proofs.Upload.Chunks
import CertifiedCalls.Proofs.Upload.Complete
import CertifiedCalls.Proofs.Upload.FanOut
import CertifiedCalls.Proofs.Upload.Intact
import CertifiedCalls.Proofs.Upload.LastRange
import CertifiedCalls.Proofs.Upload.Partition
import CertifiedCalls.Proofs.Upload.Plans
import CertifiedCalls.Proofs.Upload.Replies
import CertifiedCalls.Proofs.Upload.Requests
import CertifiedCalls.Proofs.Upload.Settled
import CertifiedCalls.Proofs.Upload.Storing
import CertifiedCalls.Proofs.Upload.Wire
import CertifiedCalls.Proofs.Value.Elided
import CertifiedCalls.Proofs.Workflow.Course
import CertifiedCalls.Proofs.Workflow.Ending
import CertifiedCalls.Proofs.Workflow.Explained
import CertifiedCalls.Proofs.Workflow.Ledger
import CertifiedCalls.Proofs.Workflow.Passage
import CertifiedCalls.Proofs.Workflow.Prompt
import CertifiedCalls.Proofs.Workflow.Remarks
import CertifiedCalls.Proofs.Workflow.Running
import CertifiedCalls.Proofs.Workflow.SideBySide
import CertifiedCalls.Proofs.Workflow.Stopping
import CertifiedCalls.Proofs.Workflow.Waking
import CertifiedCalls.Schema.Basic
import CertifiedCalls.Schema.Check
import CertifiedCalls.Simulation.InMemory
import CertifiedCalls.Simulation.Rules
import CertifiedCalls.Simulation.Script
import CertifiedCalls.Simulation.Storage
import CertifiedCalls.Text.Blank
import CertifiedCalls.Text.Braced
import CertifiedCalls.Text.Concealed
import CertifiedCalls.Text.DecimalDigit
import CertifiedCalls.Text.Numeral
import CertifiedCalls.Text.Phrase
import CertifiedCalls.Text.Quoted
import CertifiedCalls.Time.Backoff
import CertifiedCalls.Time.Duration
import CertifiedCalls.Time.PollSchedule
import CertifiedCalls.Upload.Activity
import CertifiedCalls.Upload.Client
import CertifiedCalls.Upload.Failure
import CertifiedCalls.Upload.FileHash
import CertifiedCalls.Upload.Messages
import CertifiedCalls.Upload.Partition
import CertifiedCalls.Upload.Plan
import CertifiedCalls.Upload.Run
import CertifiedCalls.Upload.Schemas
import CertifiedCalls.Upload.Storage
import CertifiedCalls.Value.Basic
import CertifiedCalls.Value.Display
import CertifiedCalls.Workflow.Basic
import CertifiedCalls.Workflow.Pool
import CertifiedCalls.Workflow.Run
import CertifiedCalls.Workflow.World
