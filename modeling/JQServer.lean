import JQServer.ForStd.Transition
import JQServer.ForStd.Fin
import JQServer.ForStd.Chain
import JQServer.ForStd.CString
import JQServer.ForStd.CSearch
import JQServer.ForStd.Memory
import JQServer.ForStd.Pointer
import JQServer.ForStd.Chunks
import JQServer.ForStd.Fifo
import JQServer.ForStd.Simulation
import JQServer.ForStd.WorkQueue
import JQServer.Native.ThreadPool
import JQServer.Native.Proto
import JQServer.Native.EpollConnect
import JQServer.Native.NetUpdate
import JQServer.Native.Server
import JQServer.Native.Shutdown
import JQServer.Native.ClientPackets
import JQServer.Native.LinuxClient
import JQServer.Native.GetAllUser
import JQServer.Native.ReplyBytes
import JQServer.Native.RecvFunc
import JQServer.Native.SharedTable
import JQServer.Native.SocketLoops
import JQServer.Native.ConfigInfo
import JQServer.Native.ConfigReader
import JQServer.Native.SqlPool
import JQServer.Native.SqlPoolCalls
import JQServer.Native.DatabaseProcess
import JQServer.Native.Log
import JQServer.Spec.JobQueue
import JQServer.Spec.PoolInvariant
import JQServer.Spec.PoolSemaphore
import JQServer.Spec.PoolOwnership
import JQServer.Spec.PoolRefinement
import JQServer.Spec.PoolLockup
import JQServer.Spec.ServerMoves
import JQServer.Spec.HandlerMoves
import JQServer.Spec.Connections
import JQServer.Spec.HandlerJobs
import JQServer.Spec.NetInvariant
import JQServer.Spec.ConnectionCount
import JQServer.Spec.AcceptGate
import JQServer.Spec.DescriptorOwnership
import JQServer.Spec.OpenDescriptors
import JQServer.Spec.Shadows
import JQServer.Spec.Shutdown
import JQServer.Spec.IdleSweep
import JQServer.Spec.IdleBound
import JQServer.Spec.JobConnection
import JQServer.Spec.Identity
import JQServer.Spec.PeerClose
import JQServer.Spec.MissingSlot
import JQServer.Spec.Receiving
import JQServer.Spec.Framing
import JQServer.Spec.UserList
import JQServer.Spec.Login
import JQServer.Spec.StoredStrings
import JQServer.Spec.LoginOrder
import JQServer.Spec.ReplyStream
import JQServer.Spec.HandlerAlone
import JQServer.Spec.SharedMoves
import JQServer.Spec.TwoPasses
import JQServer.Spec.SlotSnapshots
import JQServer.Spec.PoolDestroy
import JQServer.Spec.SendLoop
import JQServer.Spec.QueueLinks
import JQServer.Spec.Timeouts
import JQServer.Spec.JobsCommute
import JQServer.Spec.PasswordCheck
import JQServer.Spec.QueuedMessages
import JQServer.Spec.JobDelivery
import JQServer.Spec.EventLoopProgress
import JQServer.Spec.PeerAddresses
import JQServer.Spec.Rendezvous
import JQServer.Spec.LoginLookup
import JQServer.Spec.LinuxPackets
import JQServer.Spec.ClientsMeet
import JQServer.Spec.RecvReply
import JQServer.Spec.PrintedReply
import JQServer.Spec.ConfigRoundTrip
import JQServer.Spec.ConfigKeys
import JQServer.Spec.ConfigMemory
import JQServer.Spec.ConfigComments
import JQServer.Spec.SqlHolders
import JQServer.Spec.SqlConnections
import JQServer.Spec.SqlHandles
import JQServer.Spec.SqlGet
import JQServer.Spec.UpgradeCount
import JQServer.Spec.UpgradeQueries
import JQServer.Spec.LogRecords
import JQServer.Spec.LogText
import JQServer.Spec.LogRepeats
import JQServer.Spec.LogHandle
import JQServer.Spec.LogSize
