import MailRules.Binary64.Basic
import MailRules.Binary64.Shortest
import MailRules.Calendar.Date
import MailRules.Calendar.Instant
import MailRules.Calendar.LocalTime
import MailRules.Calendar.MailDate
import MailRules.Calendar.Pattern
import MailRules.Calendar.Received
import MailRules.Calendar.Scan
import MailRules.Calendar.Timestamp
import MailRules.Calendar.Zone
import MailRules.CommandLine.Arguments
import MailRules.CommandLine.Run
import MailRules.Disk
import MailRules.Http.Host
import MailRules.Http.Message
import MailRules.Http.Percent
import MailRules.Http.Punycode
import MailRules.Http.Url
import MailRules.Json.Codec
import MailRules.Json.Document
import MailRules.Json.Token
import MailRules.Json.Value
import MailRules.Label.Action
import MailRules.Label.Memory
import MailRules.Label.Service
import MailRules.Mailbox.Client
import MailRules.Mailbox.CredentialsFile
import MailRules.Mailbox.Fetch
import MailRules.Mailbox.Message
import MailRules.Mailbox.Sorting
import MailRules.Mailbox.Token
import MailRules.Mailbox.World
import MailRules.Main
import MailRules.Proofs.Calendar.Alike
import MailRules.Proofs.Calendar.Appended
import MailRules.Proofs.Calendar.Comment
import MailRules.Proofs.Calendar.Date
import MailRules.Proofs.Calendar.DayNumber
import MailRules.Proofs.Calendar.Header
import MailRules.Proofs.Calendar.Instant
import MailRules.Proofs.Calendar.LocalDate
import MailRules.Proofs.Calendar.Loosening
import MailRules.Proofs.Calendar.MailPattern
import MailRules.Proofs.Calendar.Padding
import MailRules.Proofs.Calendar.Pattern
import MailRules.Proofs.Calendar.Scan
import MailRules.Proofs.Calendar.Spelling
import MailRules.Proofs.Calendar.Strict
import MailRules.Proofs.Calendar.Timestamp
import MailRules.Proofs.Disk
import MailRules.Proofs.Json.Codec
import MailRules.Proofs.Json.Layout
import MailRules.Proofs.Json.Spelling
import MailRules.Proofs.Json.Token
import MailRules.Proofs.Label.Errand
import MailRules.Proofs.Label.Labelling
import MailRules.Proofs.Label.Memory
import MailRules.Proofs.Mailbox.CredentialsFile
import MailRules.Proofs.Mailbox.Exchange
import MailRules.Proofs.Mailbox.Headers
import MailRules.Proofs.Mailbox.History
import MailRules.Proofs.Mailbox.Invariant
import MailRules.Proofs.Mailbox.Persistence
import MailRules.Proofs.Rule.Evaluation
import MailRules.Proofs.Rule.Mistake
import MailRules.Proofs.Sorting.Decision
import MailRules.Proofs.Sorting.Errands
import MailRules.Proofs.Sorting.Interruption
import MailRules.Proofs.Sorting.Mistake
import MailRules.Proofs.Sorting.Outcome
import MailRules.Proofs.Sorting.Repetition
import MailRules.Proofs.Sorting.Resumption
import MailRules.Proofs.Text.Numeral
import MailRules.Proofs.Text.White
import MailRules.Record
import MailRules.Rule.Age
import MailRules.Rule.Basic
import MailRules.Rule.Condition
import MailRules.Rule.File
import MailRules.Rule.Issue
import MailRules.Settings.Basic
import MailRules.Settings.Json
import MailRules.Settings.Source
import MailRules.Settings.Value
import MailRules.Sorting
import MailRules.Step
import MailRules.Store.Basic
import MailRules.Store.Migration
import MailRules.Store.Table
import MailRules.Text.Basic
import MailRules.Text.Numeral
import MailRules.Text.Utf8
import MailRules.Toml.Document
import MailRules.Toml.Layout
import MailRules.Toml.Number
import MailRules.Toml.Table
import MailRules.Toml.Text
import MailRules.Toml.Time
import MailRules.Toml.Value
import MailRules.Proofs.Documents
import MailRules.Proofs.Store.History
import MailRules.Proofs.Mailbox.Protocol
import MailRules.Proofs.Mailbox.Server
import MailRules.Proofs.Text.Utf8
import MailRules.Proofs.Mailbox.Refinement
import MailRules.Proofs.Mailbox.LabelServer
import MailRules.Proofs.Json.Grammar
import MailRules.Proofs.Json.Quotation
import MailRules.Proofs.Json.Numeral
import MailRules.Proofs.Json.Reading
import MailRules.Proofs.Json.Typed
import MailRules.Proofs.Rule.Containment
import MailRules.Proofs.Rule.Document
import MailRules.Proofs.Mailbox.Expiry
import MailRules.Proofs.Step
import MailRules.Proofs.Label.Transcript
import MailRules.Proofs.Sorting.Isolation
import MailRules.Proofs.Sorting.Independence
import MailRules.Proofs.Sorting.Commutation
import MailRules.Proofs.Sorting.Permutation
import MailRules.Proofs.Mailbox.Shadow
import MailRules.Proofs.Mailbox.Journal
import MailRules.Proofs.Store.Replay
import MailRules.Proofs.Mailbox.Archive
import MailRules.Proofs.Mailbox.Fetch
import MailRules.Proofs.Mailbox.Refetch
import MailRules.Proofs.Settings.Environment
import MailRules.Proofs.Mailbox.Rotation
import MailRules.Proofs.Store.Usable
import MailRules.Proofs.CommandLine.Stages
import MailRules.Proofs.Mailbox.Timeliness
import MailRules.Proofs.Rule.Threshold
import MailRules.Proofs.Json.Members
import MailRules.Proofs.Mailbox.Answers
import MailRules.Proofs.Mailbox.Caller
import MailRules.Proofs.Mailbox.Callers
import MailRules.Proofs.Rule.Age
import MailRules.Proofs.Rule.Matching
import MailRules.Proofs.Calendar.LocalOrder
import MailRules.Proofs.Calendar.UtcSpelling
import MailRules.Proofs.Rule.Duality
import MailRules.Proofs.Label.Discipline
import MailRules.Proofs.Store.Migration
import MailRules.Proofs.Calendar.Inside
