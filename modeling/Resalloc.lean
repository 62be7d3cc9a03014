import Resalloc.Client
import Resalloc.Foundations.Base64
import Resalloc.Foundations.Entries
import Resalloc.Foundations.Fallible
import Resalloc.Foundations.FirstFit
import Resalloc.Foundations.Greedy
import Resalloc.Foundations.HashStore
import Resalloc.Foundations.IdTable
import Resalloc.Foundations.Leases
import Resalloc.Foundations.Limiter
import Resalloc.Foundations.Lines
import Resalloc.Foundations.MovingAverage
import Resalloc.Foundations.Numbering
import Resalloc.Foundations.Progress
import Resalloc.Foundations.Quota
import Resalloc.Foundations.Rowwise
import Resalloc.Foundations.Runs
import Resalloc.Foundations.StableQueue
import Resalloc.Foundations.Words
import Resalloc.Helpers
import Resalloc.Server.Allocations
import Resalloc.Server.Api
import Resalloc.Server.Assigning
import Resalloc.Server.Attendance
import Resalloc.Server.Cleaning
import Resalloc.Server.Commands
import Resalloc.Server.Configured
import Resalloc.Server.Cycles
import Resalloc.Server.Decisions
import Resalloc.Server.Events
import Resalloc.Server.Execution
import Resalloc.Server.FailedReleases
import Resalloc.Server.Fairness
import Resalloc.Server.Greedy
import Resalloc.Server.Hooks
import Resalloc.Server.Invariants
import Resalloc.Server.Isolation
import Resalloc.Server.Leases
import Resalloc.Server.Lifecycle
import Resalloc.Server.LineLimit
import Resalloc.Server.Links
import Resalloc.Server.Livechecks
import Resalloc.Server.Liveness
import Resalloc.Server.Loading
import Resalloc.Server.Logic
import Resalloc.Server.Manager
import Resalloc.Server.Matching
import Resalloc.Server.Migration
import Resalloc.Server.Models
import Resalloc.Server.Names
import Resalloc.Server.Numbers
import Resalloc.Server.OnDemand
import Resalloc.Server.Outages
import Resalloc.Server.Output
import Resalloc.Server.Passes
import Resalloc.Server.Planning
import Resalloc.Server.Pool
import Resalloc.Server.PoolConfig
import Resalloc.Server.PoolSections
import Resalloc.Server.PriorityQueue
import Resalloc.Server.QueueRefinement
import Resalloc.Server.Quotas
import Resalloc.Server.Reuse
import Resalloc.Server.Sandboxes
import Resalloc.Server.Serving
import Resalloc.Server.Spacing
import Resalloc.Server.Starvation
import Resalloc.Server.Statistics
import Resalloc.Server.Steps
import Resalloc.Server.Surplus
import Resalloc.Server.Survival
import Resalloc.Server.System
import Resalloc.Server.Tags
import Resalloc.Server.TicketTags
import Resalloc.Server.Unused
import Resalloc.Server.Waiting
import Resalloc.Server.WaitingRoom
import Resalloc.Server.Workers
import Resalloc.Server.Yaml
import Resalloc.Site.Agents
import Resalloc.Site.Calls
import Resalloc.Site.System
import Resalloc.Spawner.Agents
import Resalloc.Spawner.Converge
import Resalloc.Spawner.Dispatcher
import Resalloc.Spawner.Hooks
import Resalloc.Spawner.Ledger
import Resalloc.Spawner.Lifecycle
import Resalloc.Spawner.Releases
import Resalloc.Spawner.Restarts
import Resalloc.Spawner.Steps
import Resalloc.Spawner.System
