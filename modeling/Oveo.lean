import Oveo.Api.Access
import Oveo.Api.Privacy
import Oveo.Api.Sessions
import Oveo.Api.SignInSafety
import Oveo.Api.SignIns
import Oveo.Attachments.Atomicity
import Oveo.Attachments.Upload
import Oveo.Backup.Consistency
import Oveo.Backup.Safety
import Oveo.Backup.Schedule
import Oveo.Browser.Exact
import Oveo.Browser.Transcript
import Oveo.Context.Chunks
import Oveo.Context.Compaction
import Oveo.Context.CompactionSafety
import Oveo.Context.Coverage
import Oveo.Context.Covered
import Oveo.Context.Delimiters
import Oveo.Context.Envelope
import Oveo.Context.Handoff
import Oveo.Context.Instructions
import Oveo.Context.Payload
import Oveo.Context.Readback
import Oveo.Context.Rounds
import Oveo.Context.Snapshot
import Oveo.Context.SummarySearch
import Oveo.Context.TokenFit
import Oveo.Deploy.Host
import Oveo.Deploy.Recorded
import Oveo.Deploy.Schema
import Oveo.Deploy.Scripts
import Oveo.Deploy.Standing
import Oveo.Deploy.Writes
import Oveo.Docx.Accepted
import Oveo.Docx.Blocks
import Oveo.Docx.Breaks
import Oveo.Docx.Changes
import Oveo.Docx.Document
import Oveo.Docx.Editable
import Oveo.Docx.Edited
import Oveo.Docx.Events
import Oveo.Docx.Export
import Oveo.Docx.Inherited
import Oveo.Docx.Inserted
import Oveo.Docx.Layout
import Oveo.Docx.LineEdits
import Oveo.Docx.Numbering
import Oveo.Docx.Package
import Oveo.Docx.PackageExport
import Oveo.Docx.Patch
import Oveo.Docx.Relabel
import Oveo.Docx.Relayout
import Oveo.Docx.Render
import Oveo.Docx.Reread
import Oveo.Docx.Rewriting
import Oveo.Docx.Rewritten
import Oveo.Docx.Shown
import Oveo.Docx.Signs
import Oveo.Docx.Storage
import Oveo.Docx.Stretches
import Oveo.Docx.Tokens
import Oveo.Docx.Tree
import Oveo.Lib.Before
import Oveo.Lib.Bisect
import Oveo.Lib.Expiry
import Oveo.Lib.Fallible
import Oveo.Lib.FileTree
import Oveo.Lib.Grants
import Oveo.Lib.Greedy
import Oveo.Lib.Json
import Oveo.Lib.JsonSafe
import Oveo.Lib.JsonScan
import Oveo.Lib.JsonText
import Oveo.Lib.Keyed
import Oveo.Lib.Machine
import Oveo.Lib.Recency
import Oveo.Lib.Splice
import Oveo.Lib.Text
import Oveo.Lib.Totals
import Oveo.Lib.Traces
import Oveo.Lib.Utf16
import Oveo.Lib.Utf8
import Oveo.Lib.Window
import Oveo.Lifecycle.Calls
import Oveo.Lifecycle.Detail
import Oveo.Lifecycle.Evolution
import Oveo.Lifecycle.Idempotency
import Oveo.Lifecycle.Invariant
import Oveo.Lifecycle.Messages
import Oveo.Lifecycle.Safety
import Oveo.Lifecycle.Submission
import Oveo.Lifecycle.System
import Oveo.Lifecycle.Tables
import Oveo.Lifecycle.Transactions
import Oveo.Lifecycle.Turns
import Oveo.Lifecycle.WorkHistory
import Oveo.Login.FailureRate
import Oveo.Login.Guard
import Oveo.Login.Lockout
import Oveo.Login.Throttle
import Oveo.Login.Waits
import Oveo.Protocol.Content
import Oveo.Protocol.Cuts
import Oveo.Protocol.Decoder
import Oveo.Protocol.Document
import Oveo.Protocol.Grammar
import Oveo.Protocol.Lines
import Oveo.Protocol.Schema
import Oveo.Protocol.State
import Oveo.Protocol.Transcript
import Oveo.Provider.Attempt
import Oveo.Provider.EventLines
import Oveo.Provider.Joining
import Oveo.Provider.LineSplitting
import Oveo.Provider.NoReplay
import Oveo.Provider.Request
import Oveo.Provider.SlotSafety
import Oveo.Provider.Slots
import Oveo.Provider.Surrogates
import Oveo.Provider.Tokens
import Oveo.Restore.Archive
import Oveo.Restore.Confined
import Oveo.Restore.Extract
import Oveo.Restore.Members
import Oveo.Restore.Restored
import Oveo.Restore.RoundTrip
import Oveo.Restore.Staging
import Oveo.Restore.Storable
import Oveo.Server.BodyLimit
import Oveo.Server.Workers
import Oveo.Store.Accounts
import Oveo.Store.Rows
import Oveo.Stream.Attempts
import Oveo.Stream.Cap
import Oveo.Stream.Closing
import Oveo.Stream.Draft
import Oveo.Stream.Follow
import Oveo.Stream.LiveStatus
import Oveo.Stream.Safety
import Oveo.Stream.Subscription
import Oveo.Stream.System
import Oveo.Stream.Writers
import Oveo.Usage.Ledger
import Oveo.Usage.Reconcile
import Oveo.Usage.Run
import Oveo.Usage.Safety
import Oveo.Usage.System
import Oveo.Work.Apply
import Oveo.Work.Frame
import Oveo.Work.History
import Oveo.Work.Replacement
import Oveo.Work.Visible
