import Cordis.Library.Machine
import Cordis.Library.CycleCheck
import Cordis.Library.Wire
import Cordis.Core.Lifecycle
import Cordis.Core.Error
import Cordis.Core.Disposal
import Cordis.Fiber.Record
import Cordis.Fiber.Cell
import Cordis.Fiber.Step
import Cordis.Fiber.Control
import Cordis.Fiber.Legality
import Cordis.Fiber.Mutex
import Cordis.Fiber.Permanence
import Cordis.Fiber.Ledger
import Cordis.Runtime.State
import Cordis.Runtime.Cutover
import Cordis.Runtime.Graph
import Cordis.Runtime.Step
import Cordis.Runtime.Collector
import Cordis.Proof.Cutover
import Cordis.Proof.Reload
import Cordis.Proof.Tame
import Cordis.Proof.Topology
import Cordis.Proof.Evolve
import Cordis.Proof.Frame
import Cordis.Proof.Indexes
import Cordis.Proof.Members
import Cordis.Proof.Traversal
import Cordis.Proof.DeadScope
import Cordis.Proof.Waiters
import Cordis.Gate.Execution
import Cordis.Gate.Lease
import Cordis.Gate.Capability
import Cordis.Dispatch.EventBus
import Cordis.Dispatch.Generations
import Cordis.Dispatch.Invocation
import Cordis.Dispatch.Snapshot
import Cordis.Dispatch.Handover
import Cordis.Dispatch.Services
import Cordis.Dispatch.Cache
import Cordis.Dispatch.Revision
import Cordis.Dispatch.Supply
import Cordis.Dispatch.Availability
import Cordis.Host.Protocol
import Cordis.Host.Fields
import Cordis.Host.RoundTrip
import Cordis.Host.Canonical
import Cordis.Host.Config
import Cordis.Host.Admission
import Cordis.Host.Session
import Cordis.Host.Pending
import Cordis.Host.Actors
import Cordis.Host.Closing
import Cordis.Host.Convergence
import Cordis.Host.Acknowledged
import Cordis.Host.Close
import Cordis.Fiber.Refusal
import Cordis.Library.Barrier
import Cordis.Proof.Barrier
import Cordis.Fiber.Tenure
import Cordis.Library.TwoPhase
import Cordis.Proof.Generation
import Cordis.Proof.Handlers
import Cordis.Proof.Placement
import Cordis.Proof.WellFormed
import Cordis.Library.Chain
import Cordis.Proof.Quota
import Cordis.Fiber.Clearing
import Cordis.Fiber.Serving
import Cordis.Proof.Calls
import Cordis.Proof.Stock
import Cordis.Dispatch.Linearized
import Cordis.Dispatch.Selection
import Cordis.Fiber.Activation
import Cordis.Fiber.Effects
import Cordis.Fiber.Renewal
import Cordis.Gate.Drain
import Cordis.Host.Correlation
import Cordis.Host.Delimited
import Cordis.Host.Departure
import Cordis.Host.Inflight
import Cordis.Host.Limits
import Cordis.Library.SingleFlight
import Cordis.Proof.Accounts
import Cordis.Proof.Activations
import Cordis.Proof.Dependency
import Cordis.Proof.Effects
import Cordis.Proof.Finalization
import Cordis.Proof.Parked
import Cordis.Proof.Plugins
import Cordis.Proof.Reconcile
import Cordis.Proof.ScopeMap
import Cordis.Proof.StartBarrier
import Cordis.Dispatch.CacheMirror
import Cordis.Runtime.Deadlines
import Cordis.Proof.Committed
import Cordis.Proof.Tenancy
import Cordis.Proof.Provisions
import Cordis.Proof.Visible
import Cordis.Runtime.Invocations
import Cordis.Runtime.Wakeups
import Cordis.Dispatch.InvocationChain
import Cordis.Proof.Pinned
import Cordis.Proof.Quiescence
import Cordis.Host.Teardown
import Cordis.Dispatch.Report
