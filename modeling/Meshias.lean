import Meshias.Lib.Machine
import Meshias.Lib.Liveness
import Meshias.Lib.KeyedList
import Meshias.Lib.Network
import Meshias.Lib.DistanceVector
import Meshias.Lib.Memory
import Meshias.Codec
import Meshias.Daemon
import Meshias.Table
import Meshias.Frame
import Meshias.Handlers
import Meshias.Messages
import Meshias.Traffic
import Meshias.Lifetimes
import Meshias.Reachable
import Meshias.Forecast
import Meshias.GivingUp
import Meshias.Sending
import Meshias.Verdicts
import Meshias.OwnRequests
import Meshias.Discovery
import Meshias.ActiveRoutes
import Meshias.Kernel
import Meshias.Duplicates
import Meshias.Freshness
import Meshias.Acceptance
import Meshias.Network
import Meshias.SequenceNumbers
import Meshias.LoopFreedom
import Meshias.Lifecycle
import Meshias.Renewals
import Meshias.NextHops
import Meshias.Expiry
import Meshias.RrepLifetimes
import Meshias.PassingOn
import Meshias.Lib.SerialNumbers
import Meshias.Answers
import Meshias.ReverseRoutes
import Meshias.Retries
import Meshias.Rediscovery
import Meshias.Flood
import Meshias.HopCounts
import Meshias.Hearing
import Meshias.Chain
import Meshias.RingSearch
import Meshias.Phases
import Meshias.ChainDiscovery
import Meshias.Lib.Prefixes
import Meshias.Prefixes
import Meshias.PacketOrder
import Meshias.Deletion
import Meshias.RouteErrors
import Meshias.Datagrams
import Meshias.AnsweredRequests
import Meshias.Usage
import Meshias.Readback
import Meshias.Rollover
import Meshias.Recognition
import Meshias.Lib.CString
import Meshias.CommInterface
import Meshias.DropAccounting
import Meshias.Untouched
import Meshias.Lib.Heap
import Meshias.Lib.RedBlack
import Meshias.RbTree
import Meshias.RbShape
import Meshias.RbInsert
import Meshias.RbErase
import Meshias.RbWalk
import Meshias.Lib.TimerQueue
import Meshias.AlarmTree
import Meshias.AlarmQueue
import Meshias.AlarmRuns
import Meshias.AlarmLinks
import Meshias.Lib.Ring
import Meshias.LinuxList
import Meshias.PacketMemory
import Meshias.PrecursorMemory
import Meshias.RreqMemory
import Meshias.Silence
import Meshias.AlarmCallbacks
import Meshias.AlarmRefinement
import Meshias.LocalTurns
import Meshias.MainLoop
import Meshias.Provenance
import Meshias.RequestIds
import Meshias.Commands
import Meshias.Client
