import Hooch.Lib.TransitionSystem
import Hooch.Lib.Circular
import Hooch.Lib.Sequential
import Hooch.Lib.Census
import Hooch.Lib.BoundedQueue
import Hooch.Lib.Table
import Hooch.Lib.Fairness
import Hooch.Utils.RingBuffer
import Hooch.Utils.RingThreads
import Hooch.Utils.SingleProducer
import Hooch.Utils.SameKind
import Hooch.Utils.Sequential
import Hooch.Reactor
import Hooch.Task.Manager
import Hooch.Task.Dispatch
import Hooch.Task.Delivery
import Hooch.Executor
import Hooch.Runtime
import Hooch.Panics
import Hooch.RunBlocking
import Hooch.Task.Interleaving
import Hooch.Task.Stranding
import Hooch.Task.Abort
import Hooch.Task.Backlog
import Hooch.Task.Atomic
import Hooch.Sync.BoundedChannel
import Hooch.Sync.ReceivePaths
import Hooch.Sync.Balance
import Hooch.Sync.LostWake
import Hooch.Sync.Disconnection
import Hooch.Net.Socket
import Hooch.Net.Waiters
import Hooch.Net.Readiness
import Hooch.Operations
import Hooch.TagBuffer
import Hooch.Fs.File
import Hooch.Time.Sleep
import Hooch.Time.Timeout
import Hooch.Pool.ThreadPool
import Hooch.Net.Tcp
import Hooch.Task.Poll
import Hooch.Net.TcpResult
import Hooch.Fs.AsyncFile
import Hooch.LeafFutures
import Hooch.Sync.Blocked
import Hooch.Spawner
import Hooch.Handle
import Hooch.ReactorTags
import Hooch.StatusTable
import Hooch.Task.Entries
import Hooch.Task.RefCount
import Hooch.Task.Liveness
import Hooch.Service
import Hooch.Task.RingManager
import Hooch.Task.RingRuntime
import Hooch.Pool.Callers
import Hooch.Startup
import Hooch.Task.Await
import Hooch.Task.Calls
import Hooch.Sync.Wakeups
import Hooch.LeafAwait
import Hooch.Nested
import Hooch.Net.SocketAwait
import Hooch.Sync.ChannelAwait
import Hooch.Time.TimeoutAwait
