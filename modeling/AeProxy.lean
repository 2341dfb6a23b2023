import AeProxy.Lib.Loop
import AeProxy.Lib.Incremental
import AeProxy.Lib.Bytes
import AeProxy.Packet.Number
import AeProxy.Packet.Frame
import AeProxy.Packet.Packing
import AeProxy.Packet.Decoder
import AeProxy.Packet.Resync
import AeProxy.Packet.Soundness
import AeProxy.Packet.Unfinished
import AeProxy.Packet.Stream
import AeProxy.Packet.Bounds
import AeProxy.Lib.Words
import AeProxy.Base.Trie
import AeProxy.Base.PrunedTrie
import AeProxy.Base.TrieHistory
import AeProxy.Lib.Heap
import AeProxy.Base.TrieMemory
import AeProxy.Base.DomainRules
import AeProxy.Lib.Rotation
import AeProxy.Server.TimerWheel
import AeProxy.Server.IdleTimeout
import AeProxy.Lib.System
import AeProxy.Server.WheelSafety
import AeProxy.Lib.CloseSlot
import AeProxy.Server.TcpConnection
import AeProxy.Server.CloseOnce
import AeProxy.Server.TcpServer
import AeProxy.Server.Registry
import AeProxy.Server.Entries
import AeProxy.Server.Lifecycle
import AeProxy.Lib.Log
import AeProxy.Client.TcpClient
import AeProxy.Client.Attempt
import AeProxy.Client.Protocol
import AeProxy.Client.Ownership
import AeProxy.Client.Answered
import AeProxy.Client.Final
import AeProxy.Loop.EventLoop
import AeProxy.Loop.Wakeup
import AeProxy.Loop.Stop
import AeProxy.Lib.Progress
import AeProxy.Loop.Liveness
import AeProxy.Loop.Deletion
import AeProxy.Lib.Clock
import AeProxy.Lib.Simulation
import AeProxy.Loop.Timer
import AeProxy.Server.WatchedServer
import AeProxy.Server.Shutdown
import AeProxy.Server.Reclaim
import AeProxy.Server.Lingering
import AeProxy.Server.Write
import AeProxy.Server.WriteMemory
import AeProxy.Server.ReadBuffer
import AeProxy.Server.Callbacks
import AeProxy.Server.EmptyCalls
import AeProxy.Server.Embedding
import AeProxy.Server.Writing
import AeProxy.Client.Numbering
import AeProxy.Client.Embedding
import AeProxy.Lib.Text
import AeProxy.Proxy.Msgpack
import AeProxy.Proxy.Format
import AeProxy.Proxy.TcpProxy
import AeProxy.Proxy.UdpProxy
import AeProxy.Proxy.Requests
import AeProxy.Proxy.Framing
import AeProxy.Proxy.Sessions
import AeProxy.Lib.Network
import AeProxy.Proxy.UdpEcho
import AeProxy.Proxy.UdpMemory
import AeProxy.Proxy.Replies
import AeProxy.Proxy.Endpoint
import AeProxy.Proxy.Relay
import AeProxy.Proxy.Stale
import AeProxy.Proxy.Symmetry
import AeProxy.Proxy.Answers
import AeProxy.Lib.Pipe
import AeProxy.Packet.Channel
