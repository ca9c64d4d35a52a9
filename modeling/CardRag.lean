import CardRag.Export.ExactRows
import CardRag.Search.Scorable
import CardRag.Structure.Replay
import CardRag.History.Supersession
import CardRag.Rotation.Fairness
import CardRag.Ocr.Parseable
import CardRag.Ocr.Document
import CardRag.Launch.Published
import CardRag.Search.LexicalLane
import CardRag.Publish.Immutable
import CardRag.Gc.Grace
import CardRag.Generations.Integrity
import CardRag.Isolation.Accepts
import CardRag.Lib.Runs
import CardRag.Lib.Paging
import CardRag.Paging.Cursor
import CardRag.Search.Compat
import CardRag.Search.Singles
import CardRag.Search.Filters
import CardRag.Paging.Pages
import CardRag.Gc.Mark
import CardRag.Gc.Accepts
import CardRag.Verification.Policy
import CardRag.Verification.Receipts
import CardRag.Verification.Cadence
import CardRag.Variants.Choice
import CardRag.Backup.Flush
import CardRag.Backup.Scope
import CardRag.Backup.Complete
import CardRag.Backup.Truth
import CardRag.Backup.Owed
import CardRag.Backup.Restore
import CardRag.Lib.Effects
import CardRag.Requests.Directory
import CardRag.Requests.Groups
import CardRag.Requests.Delegation
import CardRag.Requests.Exact
import CardRag.Requests.Replay
import CardRag.Requests.Resume
import CardRag.Requests.Recover
import CardRag.MapReduce.Lane
import CardRag.MapReduce.Paid
import CardRag.Retirement.Policy
import CardRag.Retirement.Resume
import CardRag.Retirement.Continuity
import CardRag.Retirement.CorpusDiff
import CardRag.Quota
import CardRag.Lib.Forest
import CardRag.Search.AsOf
import CardRag.Search.Compact
import CardRag.Search.Capture
import CardRag.MapReduce.Reduce
import CardRag.MapReduce.Rooted
import CardRag.Search.Expand
import CardRag.Backup.RowOrder
import CardRag.Publish.Local
import CardRag.Cleanup.Ledgers
import CardRag.Export.ChunkPages
import CardRag.Export.Coverage
import CardRag.Search.Mentions
import CardRag.Export.Capacity
import CardRag.Generations.Resident
import CardRag.History.Remediation
import CardRag.History.Plan
import CardRag.Variants.Fresh
import CardRag.Variants.Published
import CardRag.Variants.Restore
import CardRag.Caches.Metadata
import CardRag.Caches.SealMemo
import CardRag.Backup.Spool
import CardRag.Structure.Partition
import CardRag.Search.Shadow
import CardRag.Bounded
import CardRag.Caches.Pdf
import CardRag.Runs.State
import CardRag.Runs.Stage
import CardRag.RateLimit
import CardRag.Retirement.Baseline
import CardRag.Export.Embedding
import CardRag.Search.Sealing
import CardRag.Search.ExhaustiveAudit
