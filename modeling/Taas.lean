import Taas.Infra.Program
import Taas.Infra.Pool
import Taas.Infra.Runs
import Taas.Infra.Sections
import Taas.Infra.SortedSet
import Taas.Infra.Counter
import Taas.Vocabulary
import Taas.Schemas.Redis
import Taas.Services.Load
import Taas.Services.Store
import Taas.Services.RedisJobs
import Taas.System
import Taas.Properties.Views
import Taas.Properties.Sites
import Taas.Properties.Places
import Taas.Properties.Hands
import Taas.Properties.Terminal
import Taas.Properties.Ledger
import Taas.Properties.Counters
import Taas.Properties.Crash
import Taas.Infra.Table
import Taas.Models.Db
import Taas.Services.BatchStore
import Taas.Workers.Rows
import Taas.Properties.Puts
import Taas.Properties.Orphans
import Taas.Properties.Rows
import Taas.Properties.Outcomes
import Taas.Properties.Batches
import Taas.Routers.Ws
import Taas.Properties.Delivery
import Taas.Properties.Commands
import Taas.Properties.Pages
import Taas.Workers.Drain
import Taas.Properties.Drain
import Taas.Properties.Dispatches
import Taas.Properties.Statements
import Taas.Properties.Deadlines
import Taas.Properties.Archive
import Taas.Schemas.Codec
import Taas.Properties.Codec
import Taas.Infra.Gather
import Taas.Workers.Submit
import Taas.Workers.Tick
import Taas.Properties.Budget
import Taas.Models.Catalog
import Taas.Routers.Batches
import Taas.Properties.Retries
import Taas.Properties.Accounting
import Taas.Infra.Gcra
import Taas.Services.RateLimit
import Taas.Properties.RateLimit
import Taas.Services.Rebuild
import Taas.Properties.Rebuild
import Taas.Infra.Silent
import Taas.Infra.Books
import Taas.Properties.Slots
import Taas.Properties.Drift
import Taas.Schemas.Events
import Taas.Clients.Client
import Taas.Properties.Results
import Taas.Properties.Queue
import Taas.Properties.Allocation
import Taas.Properties.Tiers
import Taas.Infra.Debts
import Taas.Properties.Expiry
import Taas.Routers.Upload
import Taas.Properties.Uploads
import Taas.Workers.Attempts
import Taas.Properties.Requeues
import Taas.Workers.Harvests
import Taas.Properties.Harvests
import Taas.Properties.Windows
import Taas.Properties.Fallbacks
import Taas.Properties.Scoring
import Taas.Properties.Peeks
import Taas.Workers.Polls
import Taas.Properties.Polls
import Taas.Infra.Sweeps
import Taas.Workers.Cleanup
import Taas.Services.Retention
import Taas.Properties.Sweeps
import Taas.Deploy.Schedule
import Taas.Properties.Draining
import Taas.Services.EventEmitter
import Taas.Properties.Emitting
import Taas.Clients.Calls
import Taas.Clients.Java
import Taas.Clients.Threads
import Taas.Properties.Awaits
import Taas.Properties.Waits
import Taas.Services.JobSpec
import Taas.Properties.Load
import Taas.Properties.Weekly
import Taas.Services.DomainSync
import Taas.Properties.DomainSync
import Taas.Properties.Eviction
import Taas.Infra.Regex
import Taas.Deploy.Expression
import Taas.Properties.Expression
import Taas.Infra.Bells
import Taas.Workers.Wakeups
import Taas.Properties.Wakeups
import Taas.Infra.TtlCache
import Taas.Services.Scopes
import Taas.Deps
import Taas.Properties.Deps
import Taas.Schemas.RuntimeConfig
import Taas.Services.Config
import Taas.Services.AdminOps
import Taas.Properties.RuntimeConfig
import Taas.Properties.Config
import Taas.Services.Domains
import Taas.Engines
import Taas.Routers.Jobs
import Taas.Properties.Jobs
import Taas.Services.Perf
import Taas.Properties.Perf
import Taas.Workers.Syncs
import Taas.Properties.Syncs
