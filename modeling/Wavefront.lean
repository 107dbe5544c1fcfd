import Wavefront.CommandLine.Command
import Wavefront.Frontier.Crowd
import Wavefront.Main
import Wavefront.Trace.Replay
import Wavefront.Worker.Pool
import Wavefront.Proofs.Disk.Changes
import Wavefront.Proofs.Disk.Operations
import Wavefront.Proofs.Disk.Names
import Wavefront.Proofs.Disk.PageFiles
import Wavefront.Proofs.Store.SpilledPages
import Wavefront.Proofs.Frontier.History
import Wavefront.Proofs.Frontier.Stock
import Wavefront.Proofs.Frontier.Access
import Wavefront.Proofs.Frontier.Balance
import Wavefront.Proofs.Frontier.Delivery
import Wavefront.Proofs.Pool.Books
import Wavefront.Proofs.Pool.Exhaustion
import Wavefront.Proofs.Trace.Discovery
import Wavefront.Proofs.Trace.Forest
import Wavefront.Proofs.Pool.Conservation
import Wavefront.Proofs.Pool.Logbook
import Wavefront.Proofs.Exploration.Seeding
import Wavefront.Proofs.Exploration.Launch
import Wavefront.Proofs.Exploration.Termination
import Wavefront.Proofs.Histogram
import Wavefront.Proofs.Pool.Counters
import Wavefront.Proofs.Pool.Blame
import Wavefront.Proofs.Exploration.Tracing
import Wavefront.Proofs.Exploration.Acceptance
import Wavefront.Proofs.Pool.Coverage
import Wavefront.Proofs.Exploration.Exactness
import Wavefront.Proofs.Pool.Patience
import Wavefront.Proofs.Pool.Standstill
import Wavefront.Proofs.Exploration.Progress
import Wavefront.Proofs.Pool.Solitude
import Wavefront.Proofs.Exploration.Solitude
import Wavefront.Proofs.Exploration.Pace
import Wavefront.Proofs.Exploration.Call
import Wavefront.Proofs.Exploration.Return
import Wavefront.Proofs.Exploration.Budgets
import Wavefront.Proofs.Search.BreadthFirst
import Wavefront.Proofs.Exploration.Lockstep
import Wavefront.Proofs.Exploration.BreadthFirst
import Wavefront.Proofs.Search.Depth
import Wavefront.Proofs.Exploration.Depth
import Wavefront.Proofs.Exploration.Latch
import Wavefront.Proofs.Pool.Assertions
import Wavefront.Proofs.Exploration.Assertions
import Wavefront.Proofs.Pool.Custody
import Wavefront.Proofs.Exploration.Custody
import Wavefront.Proofs.Pool.Bounds
import Wavefront.Proofs.Exploration.Bounds
import Wavefront.Proofs.Disk.Trees
import Wavefront.Proofs.Store.Clearing
import Wavefront.Proofs.Exploration.Refusal
import Wavefront.Proofs.Exploration.Remains
import Wavefront.Proofs.Exploration.Enclosure
import Wavefront.Proofs.Disk.Mirrors
import Wavefront.Proofs.Store.Mirrors
import Wavefront.Proofs.Exploration.Mirrors
import Wavefront.Proofs.Exploration.Isolation
import Wavefront.Worker.Mishap
import Wavefront.Proofs.Worker.Mishaps
import Wavefront.Proofs.Pool.Mishaps
import Wavefront.Proofs.Pool.GivingUp
import Wavefront.Proofs.Exploration.Moments
import Wavefront.Proofs.Pool.Reports
import Wavefront.Proofs.Exploration.Reports
import Wavefront.Proofs.Trace.Links
import Wavefront.Proofs.Trace.Climbing
import Wavefront.Proofs.CounterGrid
import Wavefront.Proofs.Exploration.CounterGrid
import Wavefront.Proofs.Disk.Writing
import Wavefront.Proofs.Store.Refinement
import Wavefront.Proofs.Trace.Appending
import Wavefront.Proofs.Store.RoundTrip
import Wavefront.Proofs.Store.Visibility
import Wavefront.Proofs.Samples
import Wavefront.Proofs.Exploration.Degrees
import Wavefront.Proofs.Exploration.Holdings
import Wavefront.Proofs.Store.Sweeping
import Wavefront.Proofs.Store.Counting
import Wavefront.Proofs.CommandLine.Reporting
import Wavefront.Proofs.CommandLine.Tidying
