import Msock.Lib.Chain
import Msock.Lib.Runs
import Msock.Lib.Spread
import Msock.Lib.Accounts
import Msock.Lib.Pipe
import Msock.Lib.Trace
import Msock.Lib.AtomicQueue
import Msock.Lib.Server
import Msock.Lib.Layout
import Msock.Lib.Requests
import Msock.Queue.Upqueue
import Msock.Queue.UpqueueProof
import Msock.Queue.Roots
import Msock.Queue.Msqueue
import Msock.Umap
import Msock.UmapProof
import Msock.UmapRefines
import Msock.UmapDelete
import Msock.Pid
import Msock.Memalloc
import Msock.Memalloc.Layout
import Msock.Memalloc.Conserve
import Msock.Memalloc.Zone
import Msock.Memalloc.Replay
import Msock.Domain.Basic
import Msock.Domain.Run
import Msock.Domain.Cases
import Msock.Domain.Sends
import Msock.Domain.Roster
import Msock.Domain.Routing
import Msock.Domain.Sched
import Msock.Domain.Busy
import Msock.Domain.Mailbox
import Msock.Domain.Receive
import Msock.Domain.Outbox
import Msock.Domain.Accounts
import Msock.Domain.Post
import Msock.Domain.Straight
import Msock.Domain.Serve
import Msock.Domain.Hungry
import Msock.Domain.Exit
import Msock.Domain.Total
import Msock.Domain.Work
import Msock.Base
import Msock.Base.Routing
import Msock.Base.Sending
import Msock.Base.Transport
import Msock.Base.Posting
import Msock.Base.Delivery
import Msock.Base.Service
import Msock.Base.Sound
import Msock.Base.Turn
import Msock.Base.Boot
import Msock.Base.Retired
import Msock.Base.Wake
import Msock.Base.Accounts
import Msock.Base.Free
import Msock.Base.Shutdown
import Msock.Pool
import Msock.PoolProof
import Msock.Pool.Stranded
import Msock.Timer.Wheel
import Msock.Timer.Lists
import Msock.Timer.Slots
import Msock.Timer.Due
import Msock.Timer.Ticks
import Msock.Timer.Ledger
import Msock.Timer.Run
import Msock.Timer.Moves
import Msock.Timer.Fifo
import Msock.Timer.Search
import Msock.Timer.Next
import Msock.Engine.Fd
import Msock.Engine.Epoll
import Msock.Engine.Select
import Msock.Engine.Changes
import Msock.Engine.OneShot
import Msock.Engine.Interest
import Msock.Engine.Agree
import Msock.Engine.ChangeList
import Msock.Engine.Notify
import Msock.Engine.Signal
import Msock.Engine.Subscribe
import Msock.Engine.Timeout
import Msock.Engine.Wait
import Msock.Engine.Io
import Msock.Queue.Threads
import Msock.Queue.Truthful
import Msock.Queue.Linear

