import LinuxZero.Lib.Loop
import LinuxZero.Net.SocketDefine
import LinuxZero.Vpn.FrameLoop
import LinuxZero.Vpn.FrameConfinement
import LinuxZero.Vpn.FrameTermination
import LinuxZero.Lib.Framing
import LinuxZero.Vpn.Segmentation
import LinuxZero.Lib.Heap
import LinuxZero.Net.Kernel
import LinuxZero.Vpn.DataChannel
import LinuxZero.Vpn.ChannelCreation
import LinuxZero.Lib.Run
import LinuxZero.Vpn.ChannelAccept
import LinuxZero.Lib.FifoMatching
import LinuxZero.Vpn.ChannelPairing
import LinuxZero.Vpn.RelayRuns
import LinuxZero.Vpn.ChannelDeletion
import LinuxZero.Vpn.RelayPeers
import LinuxZero.Vpn.RelayStream
import LinuxZero.Vpn.BusinessServer
import LinuxZero.Vpn.ChannelRegistry
import LinuxZero.Vpn.ServerThreads
import LinuxZero.Vpn.ListenerFrame
import LinuxZero.Vpn.ListedChannels
import LinuxZero.Vpn.ChannelAnnouncement
import LinuxZero.Net.SocketManager
import LinuxZero.Net.ReceiveBuffer
import LinuxZero.Net.SocketEvent
import LinuxZero.Net.SocketServer
import LinuxZero.Net.FullBuffer
import LinuxZero.Net.ServerCallbacks
import LinuxZero.Net.SocketServerAccept
import LinuxZero.Net.AcceptDescriptors
import LinuxZero.Net.ConnectedOrder
import LinuxZero.Net.DescriptorReuse
import LinuxZero.Vpn.ClientPair
import LinuxZero.Vpn.ClientRelay
import LinuxZero.Vpn.PairTeardown
import LinuxZero.Vpn.ReConnect
import LinuxZero.Vpn.ReConnectWakeup
import LinuxZero.Vpn.ClientStop
import LinuxZero.Vpn.WireBytes
import LinuxZero.Lib.LinkChain
import LinuxZero.Pools.TaskQueue
import LinuxZero.Pools.ThreadPool
import LinuxZero.Pools.PoolDestruction
import LinuxZero.Pools.PoolShutdown
import LinuxZero.Pools.PoolCreation
import LinuxZero.Net.SocketClientOnce
import LinuxZero.Net.OnceCallbacks
import LinuxZero.Net.OnceBuffer
import LinuxZero.Mem.MemPool
import LinuxZero.Mem.MemPage
import LinuxZero.Mem.CreatePool
import LinuxZero.Mem.PoolState
import LinuxZero.Mem.PoolRuns
import LinuxZero.Mem.DoubleFree
import LinuxZero.Lib.RedBlack
import LinuxZero.Lib.Computes
import LinuxZero.Trees.Rbtree
import LinuxZero.Trees.Layout
import LinuxZero.Trees.Rotation
import LinuxZero.Trees.InsertFixup
import LinuxZero.Trees.DeleteFixup
import LinuxZero.Trees.Insert
import LinuxZero.Trees.Delete
import LinuxZero.Trees.Shape
import LinuxZero.Trees.TreeRuns
import LinuxZero.Trees.Search
import LinuxZero.Trees.FiniteMap
import LinuxZero.Lib.ThreadSum
import LinuxZero.Locks.RwLock
import LinuxZero.Mem.MmPool
import LinuxZero.Mem.MmPoolRuns
import LinuxZero.Svpn.ChannelSlot
import LinuxZero.Lib.CircularBuffer
import LinuxZero.Ring.RteRing
import LinuxZero.Ring.RingCopy
import LinuxZero.Ring.RingRuns
import LinuxZero.Lib.AccessLog
import LinuxZero.Trees.Recorded
import LinuxZero.Trees.NilAccess
import LinuxZero.Trees.NilRuns
import LinuxZero.Lib.OrderedTree
import LinuxZero.Bst.BstTree
import LinuxZero.Bst.Layout
import LinuxZero.Bst.Insertion
import LinuxZero.Lib.KeyHistory
import LinuxZero.Bst.Dictionary
import LinuxZero.Bst.Deletion
import LinuxZero.Bst.DeletedKeys
import LinuxZero.Lib.LevelOrder
import LinuxZero.Bst.LevelOrderTraversal
import LinuxZero.Vpn.CommandSplit
import LinuxZero.Lib.CString
import LinuxZero.Vpn.AddressFields
import LinuxZero.Lib.Runs
import LinuxZero.Dpdk.Strsplit
import LinuxZero.Dpdk.CpuInit
import LinuxZero.Lib.Destutter
import LinuxZero.Lib.NetworkOrder
import LinuxZero.Ustack.ShowInfo
import LinuxZero.Pcap.NetData
import LinuxZero.Pcap.Records
import LinuxZero.Lib.JoinedNames
import LinuxZero.CodeScp.OsPath
import LinuxZero.CodeScp.ListFiles
import LinuxZero.CodeScp.CheckAndCopy
import LinuxZero.Svpn.ChannelServers
import LinuxZero.Lib.LinkedTree
import LinuxZero.Trees.RotationFrame
import LinuxZero.Lib.Reservation
import LinuxZero.Ring.ConcurrentRing
import LinuxZero.Ring.ConcurrentFifo
import LinuxZero.Ring.ConcurrentProgress
import LinuxZero.Lib.BitMask
import LinuxZero.Fbarray.RteFbarray
import LinuxZero.Fbarray.Queries
import LinuxZero.Fbarray.FbarrayRuns
import LinuxZero.Fbarray.ConsecutiveSearch
import LinuxZero.Fbarray.ElementLayout
import LinuxZero.Lib.ReadersWriter
import LinuxZero.Fbarray.ConcurrentFbarray
import LinuxZero.Locks.RecursiveSpinlock
import LinuxZero.Lib.Monitor
import LinuxZero.Pools.CxxThreadPool
import LinuxZero.Pools.CxxPoolProgress
import LinuxZero.Vpn.ClientMessages
import LinuxZero.Vpn.ClientRequests
