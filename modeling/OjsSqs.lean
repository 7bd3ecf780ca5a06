import OjsSqs.Calls.Pool
import OjsSqs.Sqs.Scheduling
import OjsSqs.Atomic.Rules
import OjsSqs.Atomic.Methods
import OjsSqs.Lifecycle.Messages
import OjsSqs.Atomic.Steps
import OjsSqs.Lifecycle.Invariant
import OjsSqs.Lifecycle.Edges
import OjsSqs.Lifecycle.Finish
import OjsSqs.Lifecycle.Release
import OjsSqs.Lifecycle.Arrive
import OjsSqs.Lifecycle.Deliver
import OjsSqs.Lifecycle.Runs
import OjsSqs.Lifecycle.Laws
import OjsSqs.Racing.Footprint
import OjsSqs.Racing.Pushes
import OjsSqs.Racing.Spawn
import OjsSqs.Racing.Counters
import OjsSqs.Racing.Groups
import OjsSqs.Racing.Endings
import OjsSqs.Racing.OneEnd
import OjsSqs.Racing.Handles
import OjsSqs.Racing.Orderly
import OjsSqs.Racing.Requeue
import OjsSqs.Unique.Keyless
import OjsSqs.Unique.Keys
import OjsSqs.Unique.Duplicates
import OjsSqs.Unique.History
import OjsSqs.Sqs.Crons
import OjsSqs.Cron.Processes
import OjsSqs.Cron.Once
import OjsSqs.Cron.Schedules
import OjsSqs.Cron.Registrations
import OjsSqs.Calls.Ghost
import OjsSqs.Faults.Rules
import OjsSqs.Cron.Wedged
import OjsSqs.Faults.Promote
import OjsSqs.Faults.Notes
import OjsSqs.Faults.Reports
import OjsSqs.Racing.Movers
import OjsSqs.Racing.Promoters
import OjsSqs.Racing.Cancelling
import OjsSqs.Fifo.Window
import OjsSqs.Fifo.Runs
import OjsSqs.State.Expression
import OjsSqs.Unique.Replace
import OjsSqs.Writes.Operations
import OjsSqs.Writes.Expressions
import OjsSqs.Batch.Outcome
import OjsSqs.Faults.Traces
import OjsSqs.Batch.Agreement
import OjsSqs.Writes.Guards
import OjsSqs.Fetching.Reach
import OjsSqs.Delays.Withheld
import OjsSqs.Delays.Operations
import OjsSqs.Delays.Runs
import OjsSqs.Calls.Path
import OjsSqs.Sqs.QueueOps
import OjsSqs.System.Operations
import OjsSqs.System.Bare
import OjsSqs.System.Invariant
import OjsSqs.Fetching.Returned
import OjsSqs.Fetching.Isolation
import OjsSqs.System.Records
import OjsSqs.System.Shifts
import OjsSqs.System.Unposted
import OjsSqs.Cron.Turns
import OjsSqs.Cron.Outgoing
import OjsSqs.Cron.Exclusive
import OjsSqs.Cron.Overlap
import OjsSqs.Cron.Skipping
import OjsSqs.Failures.Counting
import OjsSqs.Calls.Paging
import OjsSqs.Listing.Reads
import OjsSqs.Listing.Answers
import OjsSqs.Listing.Complete
import OjsSqs.Listing.ByState
import OjsSqs.Calls.Beside
import OjsSqs.Sqs.Workers
import OjsSqs.Workers.Visibility
import OjsSqs.Workers.Directive
import OjsSqs.Queues.Kept
import OjsSqs.Queues.Listed
import OjsSqs.Calls.Prog
import OjsSqs.Calls.Possible
import OjsSqs.Calls.Locked
import OjsSqs.Writes.Undamaged
import OjsSqs.Fetching.Visible
import OjsSqs.Fetching.Background
import OjsSqs.Fetching.Collected
import OjsSqs.Faults.Creation
import OjsSqs.Faults.Truthful
import OjsSqs.Queues.Names
import OjsSqs.Text.Labelled
import OjsSqs.Unique.Preimage
import OjsSqs.Grpc.Durations
import OjsSqs.Grpc.Convert
import OjsSqs.Grpc.Policies
import OjsSqs.Grpc.Creation
import OjsSqs.Grpc.Enqueue
import OjsSqs.Grpc.Errors
import OjsSqs.Listing.DeadLetter
import OjsSqs.Fetching.Hidden
import OjsSqs.Grpc.Stream
import OjsSqs.Regexp.Expr
import OjsSqs.Regexp.Parser
import OjsSqs.Regexp.Anchors
import OjsSqs.Regexp.Between
import OjsSqs.Failures.Patterns
import OjsSqs.Regexp.Broken
import OjsSqs.Workflows.Advance
import OjsSqs.Batch.Requests
import OjsSqs.Events.Forwarding
import OjsSqs.Racing.IndexKeys
import OjsSqs.State.Keys
import OjsSqs.Events.Broker
import OjsSqs.Events.Delivery
import OjsSqs.Json.Scanner
import OjsSqs.Json.Compact
import OjsSqs.Json.Array
import OjsSqs.State.RoundTrip
import OjsSqs.Workflows.Steps
import OjsSqs.Workflows.Started
import OjsSqs.Workflows.Aside
import OjsSqs.Workflows.Following
import OjsSqs.Workflows.Counts
import OjsSqs.Workflows.Ended
import OjsSqs.Workflows.Groups
import OjsSqs.Workflows.Chains
import OjsSqs.Workflows.Undisturbed
import OjsSqs.Workflows.Once
import OjsSqs.Workflows.InTurn
import OjsSqs.Workflows.Progress
import OjsSqs.System.Final
import OjsSqs.System.Choices
import OjsSqs.System.Completing
import OjsSqs.Events.WebSockets
import OjsSqs.Events.Connections
import OjsSqs.Events.Clients
import OjsSqs.Events.Streams
import OjsSqs.Workers.Listed
import OjsSqs.Checkpoints.Saved
import OjsSqs.Scheduler.Loops
import OjsSqs.Scheduler.Stopping
