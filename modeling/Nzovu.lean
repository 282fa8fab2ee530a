import Nzovu.Foundation.Table
import Nzovu.Repository.Lease
import Nzovu.Repository.Model
import Nzovu.Repository.Counters
import Nzovu.Repository.Priority
import Nzovu.Repository.Messages
import Nzovu.Repository.DeadLetter
import Nzovu.Repository.Queues
import Nzovu.Background.Services
import Nzovu.Repository.Effects
import Nzovu.Repository.Transitions
import Nzovu.Foundation.Run
import Nzovu.Repository.System
import Nzovu.Repository.CounterExactness
import Nzovu.Repository.Migration
import Nzovu.Repository.Exhaustion
import Nzovu.Repository.History
import Nzovu.Repository.Attempts
import Nzovu.Repository.Fencing
import Nzovu.Repository.Attempts
import Nzovu.Foundation.Transaction.Machine
import Nzovu.Foundation.Transaction.Logic
import Nzovu.Foundation.Transaction.Soundness
import Nzovu.Postgres.Transactions
import Nzovu.Postgres.Outcomes
import Nzovu.Postgres.Specs
import Nzovu.Postgres.Commits
import Nzovu.Postgres.Delivery
import Nzovu.Postgres.Exclusivity
import Nzovu.Postgres.DeadLetters
import Nzovu.Repository.ExclusiveLease
import Nzovu.Repository.LeaseBudget
import Nzovu.Repository.Requeue
import Nzovu.Foundation.Base64
import Nzovu.Encryption.KeyManager
import Nzovu.Encryption.Payload
import Nzovu.Calendar.Evaluators
import Nzovu.Calendar.Engine
import Nzovu.Calendar.Progress
import Nzovu.Calendar.Transparency
import Nzovu.Calendar.Preview
import Nzovu.Schedules.Model
import Nzovu.Schedules.Processors
import Nzovu.Schedules.Operations
import Nzovu.Schedules.Changes
import Nzovu.Schedules.Lifecycle
import Nzovu.Schedules.Consistency
import Nzovu.Schedules.Accounting
import Nzovu.Schedules.Progress
import Nzovu.Schedules.Replicas
import Nzovu.Schedules.Database
import Nzovu.Background.Reclaim
import Nzovu.Schedules.Cycles
import Nzovu.Background.Starvation
import Nzovu.Repository.KeepAlive
import Nzovu.Repository.Posting
import Nzovu.Repository.BulkPosting
import Nzovu.Foundation.References
import Nzovu.Repository.Claimable
import Nzovu.Repository.DeadLetterGraph
import Nzovu.Foundation.Transaction.Alone
import Nzovu.Postgres.Agreement
import Nzovu.Foundation.Decimal
import Nzovu.Foundation.Keyset
import Nzovu.Repository.Paging
import Nzovu.Repository.DeadLetterPages
import Nzovu.Repository.PeekPages
import Nzovu.Schedules.HistoryPages
import Nzovu.Schemas.Registry
import Nzovu.Schemas.Registration
import Nzovu.Client.Tracking
import Nzovu.Client.Ownership
import Nzovu.Repository.Scheduled
import Nzovu.Foundation.Transaction.Inserts
import Nzovu.Postgres.Scheduling
import Nzovu.Postgres.SchedulingSpecs
import Nzovu.Postgres.Scheduled
import Nzovu.Repository.QueueValidation
import Nzovu.Repository.Weights
import Nzovu.Repository.ClaimOrder
import Nzovu.Repository.Retention
import Nzovu.Calendar.Validity
import Nzovu.Foundation.FixedOffset
import Nzovu.Calendar.Searching
import Nzovu.Calendar.MonthDays
import Nzovu.Calendar.MonthWeekdays
import Nzovu.Calendar.BusinessDates
import Nzovu.Calendar.ExceptionDates
import Nzovu.Calendar.YearDates
import Nzovu.Foundation.Hours
import Nzovu.Calendar.DayIntervals
import Nzovu.Repository.QueueDefaults
import Nzovu.Foundation.Base64Url
import Nzovu.Repository.PageTokens
import Nzovu.Foundation.Budget
import Nzovu.Foundation.FiniteMap
import Nzovu.Gateway.RateLimiter
import Nzovu.WebUI.Cluster
import Nzovu.WebUI.ClusterStore
import Nzovu.Calendar.BusinessDayTests
import Nzovu.Calendar.TimeOrder
import Nzovu.Foundation.Stepping
import Nzovu.Calendar.DayOffsets
import Nzovu.Calendar.SkippedDates
import Nzovu.Calendar.WeekIntervals
import Nzovu.Calendar.DayShifts
import Nzovu.Foundation.LeaseQueue
import Nzovu.Postgres.CounterTotals
import Nzovu.Repository.Conservation
import Nzovu.Repository.Refinement
import Nzovu.Foundation.Releases
import Nzovu.Repository.NamePages
import Nzovu.Schemas.Catalog
import Nzovu.Schemas.SchemaPages
import Nzovu.Foundation.Transaction.Serial
import Nzovu.Postgres.SerialCalls
import Nzovu.Postgres.SerialRuns
import Nzovu.Foundation.TokenBucket
import Nzovu.Gateway.Isolation
import Nzovu.Foundation.Charging
import Nzovu.Foundation.Hex
import Nzovu.Foundation.HostPort
import Nzovu.Gateway.Admission
import Nzovu.Foundation.Json
import Nzovu.Schemas.Content
import Nzovu.Calendar.BusinessProvider
import Nzovu.Encryption.Adapters
import Nzovu.Encryption.Processes
import Nzovu.Encryption.Rotation
import Nzovu.Foundation.ErrorTree
import Nzovu.Gateway.ErrorContract
import Nzovu.Repository.QueueState
import Nzovu.Background.Cycles
import Nzovu.WebUI.ClientCache
