import Mazu.Base
import Mazu.Cap.Calls
import Mazu.Cap.Kernel
import Mazu.Cap.Moves
import Mazu.Cap.Process
import Mazu.Cap.Refcount
import Mazu.Cap.Revoke
import Mazu.Cap.Rights
import Mazu.Cap.Step
import Mazu.Cap.Tokens
import Mazu.Cap.Word
import Mazu.Fs.Bcache
import Mazu.Fs.Blocks
import Mazu.Fs.Handles
import Mazu.Fs.Ramfs
import Mazu.Fs.RamfsScratch
import Mazu.Fs.Readers
import Mazu.Fs.Sfs
import Mazu.Fs.SfsBytes
import Mazu.Fs.SfsDevice
import Mazu.Fs.SfsNames
import Mazu.Fs.SfsSpace
import Mazu.Fs.SfsTidy
import Mazu.Ipc.Mqueue
import Mazu.Ipc.MqueueWakes
import Mazu.Ipc.Pipe
import Mazu.Lib.Arcs
import Mazu.Lib.BitField
import Mazu.Lib.Heap
import Mazu.Lib.Links
import Mazu.Lib.Loop
import Mazu.Lib.OnesSum
import Mazu.Lib.RingMem
import Mazu.Lib.Runs
import Mazu.Lib.Serial
import Mazu.Lib.Tally
import Mazu.Net.Checksum
import Mazu.Proc.Signal
import Mazu.Proc.Syscall
import Mazu.Sched.Bandwidth
import Mazu.Sched.Core
import Mazu.Sched.Dead
import Mazu.Sched.Deadline
import Mazu.Sched.Effects
import Mazu.Sched.Exit
import Mazu.Sched.Known
import Mazu.Sched.MixedCrit
import Mazu.Sched.Refill
import Mazu.Sched.RunQueue
import Mazu.Sched.Single
import Mazu.Sched.Step
import Mazu.Sync.Barrier
import Mazu.Sync.Futex
import Mazu.Sync.FutexPool
import Mazu.Sync.FutexRequeue
import Mazu.Sync.FutexRobust
import Mazu.Sync.FutexUnlock
import Mazu.Sync.FutexWake
import Mazu.Sync.Pi
import Mazu.Sync.PiAsserts
import Mazu.Sync.PiLocks
import Mazu.Sync.PiMutex
import Mazu.Sync.Registered
import Mazu.Sync.Rwlock
import Mazu.Sync.RwlockGrants
import Mazu.Sync.RwlockLedger
import Mazu.Sync.Semaphore
import Mazu.Sync.Threads
import Mazu.Sync.Tokens
import Mazu.Tcp.AckQueue
import Mazu.Tcp.Acks
import Mazu.Tcp.Actions
import Mazu.Tcp.Basic
import Mazu.Tcp.Books
import Mazu.Tcp.CachedTimer
import Mazu.Tcp.Chains
import Mazu.Tcp.Coverage
import Mazu.Tcp.Delivery
import Mazu.Tcp.Endpoints
import Mazu.Tcp.Evolve
import Mazu.Tcp.Invariant
import Mazu.Tcp.Lookup
import Mazu.Tcp.OffPath
import Mazu.Tcp.Ownership
import Mazu.Tcp.PerIp
import Mazu.Tcp.Poll
import Mazu.Tcp.PollLoop
import Mazu.Tcp.Pool
import Mazu.Tcp.Prims
import Mazu.Tcp.Receive
import Mazu.Tcp.Recovery
import Mazu.Tcp.RecvBuf
import Mazu.Tcp.RecvSide
import Mazu.Tcp.RecvWindow
import Mazu.Tcp.Send
import Mazu.Tcp.SendLoop
import Mazu.Tcp.Slots
import Mazu.Tcp.Step
import Mazu.Tcp.Stream
import Mazu.Tcp.SynOptions
import Mazu.Tcp.Table
import Mazu.Tcp.Timers
import Mazu.Tcp.Transition
import Mazu.Tcp.Update
import Mazu.Tcp.User
import Mazu.Tcp.WindowLaw
import Mazu.Tcp.Wire
import Mazu.Time.Clock
import Mazu.Web.WebSocket
