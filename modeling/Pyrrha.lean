import Pyrrha.Switch.Culprits
import Pyrrha.Lib.Pipeline
import Pyrrha.Switch.Fifo
import Pyrrha.Lib.Wrapping
import Pyrrha.Switch.Counters
import Pyrrha.Switch.RootPause
import Pyrrha.Switch.StuckChild
import Pyrrha.Link.Flag
import Pyrrha.Link.Record
import Pyrrha.Link.Coherence
import Pyrrha.Lib.OrderedSet
import Pyrrha.Rdma.Data
import Pyrrha.Rdma.Receiver
import Pyrrha.Rdma.Session
import Pyrrha.Rdma.Coverage
import Pyrrha.Rdma.Window
import Pyrrha.Rdma.Completion
import Pyrrha.Buffer.Data
import Pyrrha.Buffer.Mmu
import Pyrrha.Buffer.Node
import Pyrrha.Buffer.Effect
import Pyrrha.Lib.Ledger
import Pyrrha.Buffer.Account
import Pyrrha.Buffer.Books
import Pyrrha.Buffer.Egress
import Pyrrha.Buffer.Ingress
import Pyrrha.Buffer.Bfc
import Pyrrha.Buffer.Calls
import Pyrrha.Buffer.Upstream
import Pyrrha.Buffer.FlowTable
import Pyrrha.Floodgate.Data
import Pyrrha.Floodgate.Voq
import Pyrrha.Floodgate.Node
import Pyrrha.Floodgate.Run
import Pyrrha.Lib.Shelves
import Pyrrha.Floodgate.Effect
import Pyrrha.Floodgate.Loops
import Pyrrha.Floodgate.Progress
import Pyrrha.Floodgate.Register
import Pyrrha.Floodgate.Syn
import Pyrrha.Floodgate.Group
import Pyrrha.Floodgate.Stored
import Pyrrha.Floodgate.Order
import Pyrrha.Floodgate.Linked
import Pyrrha.Floodgate.Overflow
import Pyrrha.Floodgate.Statistics
import Pyrrha.Floodgate.Ready
import Pyrrha.Floodgate.Work
import Pyrrha.Rdma.Flight
import Pyrrha.Rdma.IrnSync
import Pyrrha.Rdma.PsnSets
import Pyrrha.Rdma.Tracked
import Pyrrha.Rdma.DisOrder
import Pyrrha.Rdma.WindowLimit
import Pyrrha.Route.Data
import Pyrrha.Route.Predict
import Pyrrha.Lib.Search
import Pyrrha.Route.NextHop
import Pyrrha.Route.Shortest
import Pyrrha.Rdma.QueuePair
import Pyrrha.Rdma.Timeout
import Pyrrha.Dstpfc.Node
import Pyrrha.Dstpfc.Resume
import Pyrrha.Egress.Queue
import Pyrrha.Egress.Sizes
import Pyrrha.Egress.Bounds
import Pyrrha.Buffer.Headroom
import Pyrrha.Switch.Crossing
import Pyrrha.Switch.Descent
import Pyrrha.Rdma.Lists
import Pyrrha.Rdma.Places
import Pyrrha.Rdma.Listed
import Pyrrha.Nic.Device
import Pyrrha.Nic.Wakeup
import Pyrrha.Rdma.Credits
import Pyrrha.Rdma.Tags
import Pyrrha.Rdma.Quota
import Pyrrha.Rdma.Refund
import Pyrrha.Lib.Wire
import Pyrrha.Wire.Headers
import Pyrrha.Wire.Custom
import Pyrrha.Wire.RoundTrip
import Pyrrha.Buffer.UsableQ
import Pyrrha.Wire.Stamp
import Pyrrha.Egress.Fairness
import Pyrrha.Lib.RoundRobin
import Pyrrha.Nic.EgressQueue
import Pyrrha.Nic.Service
import Pyrrha.Nic.Pauses
import Pyrrha.Nic.Host
import Pyrrha.Rdma.MsgTurns
import Pyrrha.Lib.Marks
import Pyrrha.Lib.Milestones
import Pyrrha.Rdma.Bitmap
import Pyrrha.Rdma.LastAck
import Pyrrha.Rdma.TokenSender
import Pyrrha.Rdma.Spending
import Pyrrha.Floodgate.Credit
import Pyrrha.Floodgate.CreditTimer
import Pyrrha.Floodgate.SynReply
import Pyrrha.Floodgate.SynAnswer
import Pyrrha.Lib.Floyd
import Pyrrha.Route.FirstHop
import Pyrrha.Lib.Double
import Pyrrha.Rdma.QosRank
import Pyrrha.Wire.Telemetry
import Pyrrha.Egress.Pifo
import Pyrrha.Route.Drill
import Pyrrha.Rdma.HostQueues
import Pyrrha.Buffer.PauseFlags
import Pyrrha.Buffer.Answered
import Pyrrha.Buffer.PauseRelease
import Pyrrha.Buffer.Statistics
import Pyrrha.Buffer.LinkLoss
import Pyrrha.Buffer.IngressFlow
import Pyrrha.Buffer.SharedPool
import Pyrrha.Floodgate.WindowLedger
import Pyrrha.Lib.SharedList
import Pyrrha.Wire.TagList
import Pyrrha.Wire.TagRuns
import Pyrrha.Floodgate.Answers
import Pyrrha.Floodgate.Conservation
import Pyrrha.Rdma.Selective
import Pyrrha.Floodgate.AckOrder
import Pyrrha.Floodgate.Numbering
import Pyrrha.Floodgate.PsnOrder
import Pyrrha.Floodgate.PsnWindow
