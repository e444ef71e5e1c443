import HiImCore.Bench.Client
import HiImCore.Bench.Receiver
import HiImCore.Bench.Unicast
import HiImCore.Cmd.Args
import HiImCore.Cmd.Health
import HiImCore.Cmd.Lifecycle
import HiImCore.Hub.Addressing
import HiImCore.Hub.Admission
import HiImCore.Hub.Agreement
import HiImCore.Hub.Authentication
import HiImCore.Hub.Balance
import HiImCore.Hub.Batches
import HiImCore.Hub.Bounds
import HiImCore.Hub.Bridge
import HiImCore.Hub.Content
import HiImCore.Hub.Context
import HiImCore.Hub.Core
import HiImCore.Hub.Custody
import HiImCore.Hub.Delivery
import HiImCore.Hub.EndToEnd
import HiImCore.Hub.Exchange
import HiImCore.Hub.Flow
import HiImCore.Hub.Growth
import HiImCore.Hub.History
import HiImCore.Hub.Identity
import HiImCore.Hub.Intake
import HiImCore.Hub.Interest
import HiImCore.Hub.Leftovers
import HiImCore.Hub.Locks
import HiImCore.Hub.Messages
import HiImCore.Hub.Output
import HiImCore.Hub.Ownership
import HiImCore.Hub.PipeWakeup
import HiImCore.Hub.PlaneSteps
import HiImCore.Hub.Protocol
import HiImCore.Hub.Publish
import HiImCore.Hub.PublishCalls
import HiImCore.Hub.Queue
import HiImCore.Hub.QueuePush
import HiImCore.Hub.Reactor
import HiImCore.Hub.ReadableCall
import HiImCore.Hub.ReadableOutcome
import HiImCore.Hub.Refinement
import HiImCore.Hub.Registry
import HiImCore.Hub.Router
import HiImCore.Hub.RouterHistory
import HiImCore.Hub.Routing
import HiImCore.Hub.Shutdown
import HiImCore.Hub.SpscQueue
import HiImCore.Hub.StaleEvents
import HiImCore.Hub.Starvation
import HiImCore.Hub.System
import HiImCore.Hub.ThreadSteps
import HiImCore.Hub.Threads
import HiImCore.Hub.Traffic
import HiImCore.Hub.Turns
import HiImCore.Hub.Wakeup
import HiImCore.Hub.Workload
import HiImCore.Im.Header
import HiImCore.Lib.Custody
import HiImCore.Lib.Decimal
import HiImCore.Lib.Fifo
import HiImCore.Lib.ForEach
import HiImCore.Lib.LastWriter
import HiImCore.Lib.Locking
import HiImCore.Lib.Pipeline
import HiImCore.Lib.Ranking
import HiImCore.Lib.Replay
import HiImCore.Lib.Ring
import HiImCore.Lib.Transition
import HiImCore.Lib.Words
import HiImCore.Wire.Auth
import HiImCore.Wire.FrameBuffer
import HiImCore.Wire.Header
import HiImCore.Wire.NormalForm
import HiImCore.Wire.Reassembly
import HiImCore.Wire.Segmentation
