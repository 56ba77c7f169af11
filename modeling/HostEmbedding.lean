import HostEmbedding.Script.Run
import HostEmbedding.Proofs.Ownership.Holdings
import HostEmbedding.Proofs.Ownership.Shapes
import HostEmbedding.Proofs.Ownership.Account
import HostEmbedding.Proofs.Ownership.Draining
import HostEmbedding.Proofs.Ownership.Releasing
import HostEmbedding.Proofs.Ownership.Tasks
import HostEmbedding.Proofs.Ownership.Creating
import HostEmbedding.Proofs.Ownership.Operations
import HostEmbedding.Proofs.Ownership.Retaining
import HostEmbedding.Proofs.Ownership.Views
import HostEmbedding.Proofs.Ownership.Places
import HostEmbedding.Proofs.Ownership.Graph
import HostEmbedding.Proofs.Machine.Holdings
import HostEmbedding.Proofs.Call.Values
import HostEmbedding.Proofs.Call.Callable
import HostEmbedding.Proofs.Call.Outcomes
import HostEmbedding.Proofs.Machine.Invariant
import HostEmbedding.Proofs.Machine.Variables
import HostEmbedding.Proofs.Machine.Actions
import HostEmbedding.Proofs.Machine.Calling
import HostEmbedding.Proofs.Machine.Leaving
import HostEmbedding.Proofs.Machine.Running
import HostEmbedding.Proofs.Machine.Stack
import HostEmbedding.Proofs.Machine.Endings
import HostEmbedding.Proofs.Machine.Traps
import HostEmbedding.Proofs.NativeLifecycle
import HostEmbedding.Proofs.OwnershipExactness
import HostEmbedding.Proofs.CallReference
import HostEmbedding.Proofs.PanicTransfer
import HostEmbedding.Proofs.ReferenceCounts
import HostEmbedding.Proofs.Ownership.Guards
import HostEmbedding.Proofs.Ownership.Flushing
import HostEmbedding.Proofs.FinalizerSafety
import HostEmbedding.Proofs.Slots.World
import HostEmbedding.Proofs.Slots.Steps
import HostEmbedding.Proofs.Slots.Beginning
import HostEmbedding.Proofs.Slots.Leaving
import HostEmbedding.Proofs.Slots.Nesting
import HostEmbedding.Proofs.Slots.Moves
import HostEmbedding.Proofs.Slots.Ends
import HostEmbedding.Proofs.Slots.Running
import HostEmbedding.Proofs.Slots.Parked
import HostEmbedding.Proofs.Slots.Twins
import HostEmbedding.Proofs.PanicParking
import HostEmbedding.Proofs.ResultSlots
import HostEmbedding.Proofs.Machine.Reading
import HostEmbedding.Proofs.Native.Deeds
import HostEmbedding.Proofs.Machine.Ordinary
import HostEmbedding.Proofs.Native.Steps
import HostEmbedding.Proofs.Native.Entries
import HostEmbedding.Proofs.Native.Transitions
import HostEmbedding.Proofs.Machine.Turns
import HostEmbedding.Proofs.CallDepth
import HostEmbedding.Proofs.Interrupts
import HostEmbedding.Proofs.Memory.Plain
import HostEmbedding.Proofs.Memory.Changes
import HostEmbedding.Proofs.MemoryContents
import HostEmbedding.Proofs.Ownership.Closures
import HostEmbedding.Proofs.Ownership.Detaching
import HostEmbedding.Proofs.ClosureLifetime
import HostEmbedding.Proofs.Call.Exchange
import HostEmbedding.Proofs.TypedCalls
import HostEmbedding.Proofs.Ownership.Teardown
import HostEmbedding.Proofs.StoreTeardown
import HostEmbedding.Proofs.Alike.Code
import HostEmbedding.Proofs.Alike.World
import HostEmbedding.Proofs.Alike.Release
import HostEmbedding.Proofs.Alike.Operations
import HostEmbedding.Proofs.Alike.Machine
import HostEmbedding.Proofs.Alike.Actions
import HostEmbedding.Proofs.Alike.Calls
import HostEmbedding.Proofs.Alike.Reading
import HostEmbedding.Proofs.Alike.Transitions
import HostEmbedding.Proofs.Alike.Deliveries
import HostEmbedding.Proofs.Alike.Runs
import HostEmbedding.Proofs.Alike.Agreement
import HostEmbedding.Proofs.FlushTransparency
import HostEmbedding.Proofs.WrappedFunctions
import HostEmbedding.Proofs.CallbackOffers
import HostEmbedding.Proofs.ValueRoundTrips
import HostEmbedding.Proofs.Views.Locks
import HostEmbedding.Proofs.ViewChains
import HostEmbedding.Proofs.Views.Beside
import HostEmbedding.Proofs.Views.Releasing
import HostEmbedding.Proofs.Views.Operating
import HostEmbedding.Proofs.Views.Together
import HostEmbedding.Proofs.Views.Passing
import HostEmbedding.Proofs.Views.Delivering
import HostEmbedding.Proofs.Views.Meeting
import HostEmbedding.Proofs.Views.Denoting
import HostEmbedding.Proofs.Views.Calling
import HostEmbedding.Proofs.Ownership.FlushEffect
import HostEmbedding.Proofs.Ownership.Openings
import HostEmbedding.Proofs.Call.Requests
import HostEmbedding.Proofs.FlushExactness
import HostEmbedding.Proofs.Memory.Bounds
import HostEmbedding.Proofs.Memory.Making
import HostEmbedding.Proofs.MemoryLimits
import HostEmbedding.Proofs.MemoryTypes
import HostEmbedding.Proofs.Text.Decoding
import HostEmbedding.Proofs.Native.TrapText
import HostEmbedding.Proofs.TrapTransfer
import HostEmbedding.Proofs.Machine.Callbacks
import HostEmbedding.Proofs.GateDecisions
import HostEmbedding.Proofs.ResultDelivery
import HostEmbedding.Proofs.FunctionTypes
import HostEmbedding.Proofs.TypeTexts
import HostEmbedding.Proofs.TypedLists
import HostEmbedding.Proofs.FinalizerGuards
