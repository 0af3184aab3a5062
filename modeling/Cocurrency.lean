import Cocurrency.Lib.Dict
import Cocurrency.Lib.Utf16
import Cocurrency.Lib.Run
import Cocurrency.Lib.Relay
import Cocurrency.Lib.Fifo
import Cocurrency.Lib.Mailbox
import Cocurrency.Lib.WaitFor
import Cocurrency.Stm.Transaction
import Cocurrency.Stm.Atomically
import Cocurrency.Stm.Moves
import Cocurrency.Stm.Attempt
import Cocurrency.Stm.Commit
import Cocurrency.Stm.Serial
import Cocurrency.Stm.Bank
import Cocurrency.Stm.Snapshot
import Cocurrency.Stm.OrElse
import Cocurrency.Stm.JavaBankSTM
import Cocurrency.Io.Clients
import Cocurrency.Io.Select
import Cocurrency.Io.Poll
import Cocurrency.Io.Epoll
import Cocurrency.Io.Nio
import Cocurrency.Io.Echo
import Cocurrency.Io.Armed
import Cocurrency.Io.Registrations
import Cocurrency.Io.Edge
import Cocurrency.Io.Settled
import Cocurrency.Io.NoStuckData
import Cocurrency.Io.Atomic
import Cocurrency.Io.HalfClose
import Cocurrency.Io.Watchers
import Cocurrency.Csp.Channel
import Cocurrency.Csp.CppChannel
import Cocurrency.Csp.JavaChannel
import Cocurrency.Csp.LuaChannel
import Cocurrency.Csp.LuaControl
import Cocurrency.Csp.LuaScheduler
import Cocurrency.Csp.LuaDelivers
import Cocurrency.Csp.Rendezvous
import Cocurrency.Csp.LuaRendezvous
import Cocurrency.Csp.ErlangChannel
import Cocurrency.Csp.ErlangClose
import Cocurrency.Csp.PromiseChain
import Cocurrency.Actor.BankAccount
import Cocurrency.Actor.Transfer
import Cocurrency.Actor.PrintServer
import Cocurrency.Actor.PrintServerOrphans
import Cocurrency.Actor.JsPrintServer
import Cocurrency.Lock.BankAccount
import Cocurrency.Lock.Deadlock
import Cocurrency.Lock.Ledger
import Cocurrency.Lock.Linearized
import Cocurrency.Lock.BoundedBuffer
import Cocurrency.Coroutine.StacklessVsStackful
import Cocurrency.Coroutine.ThreadScheduler
import Cocurrency.Lib.Words
import Cocurrency.T9.Combinations
import Cocurrency.T9.Bend
import Cocurrency.Cps.Depth
import Cocurrency.Cps.CallCc
import Cocurrency.Cps.Hanoi
import Cocurrency.Csp.BendChannel
import Cocurrency.Actor.Ports
import Cocurrency.Cps.Trampoline
import Cocurrency.Lock.BendBank
import Cocurrency.Lib.Shuffle
import Cocurrency.Lib.RoundRobin
import Cocurrency.Coroutine.Scheduler
import Cocurrency.Coroutine.BendSchedule
import Cocurrency.Lock.BendProducerConsumer
import Cocurrency.Lock.LuaBank
import Cocurrency.Lock.BufferFailure
import Cocurrency.Stm.LuaAtomically
import Cocurrency.Stm.ReadSet
import Cocurrency.Stm.Registered
import Cocurrency.Stm.Conflicts
import Cocurrency.Stm.HaskellBank
import Cocurrency.Lib.Generator
import Cocurrency.Lib.FixedWidth
import Cocurrency.Coroutine.YieldFibonacci
import Cocurrency.Coroutine.FixedFibonacci
import Cocurrency.Csp.GoPipeline
import Cocurrency.Lib.Monitor
import Cocurrency.Lib.MonitorAtomic
import Cocurrency.Lib.MonitorAwake
import Cocurrency.Lib.Halting
import Cocurrency.Lib.MonitorHalts
import Cocurrency.Lib.Family
import Cocurrency.Lock.CppProducerConsumer
import Cocurrency.Lock.JavaBankAccount
import Cocurrency.Lock.SafeCounter
import Cocurrency.Lock.JsWorkers
import Cocurrency.Lock.SpinLock
import Cocurrency.Io.Transport
import Cocurrency.Io.ProactorCallback
import Cocurrency.Io.ProactorStream
import Cocurrency.Io.ProactorServed
import Cocurrency.Io.ProactorCoroutine
import Cocurrency.Lib.Confluence
import Cocurrency.Lib.Network
import Cocurrency.Lib.NetworkView
import Cocurrency.Csp.Streams
import Cocurrency.Actor.GoPrintServer
import Cocurrency.Coroutine.ProcessDemo
import Cocurrency.Lib.MVar
import Cocurrency.Lock.MVarBank
import Cocurrency.Lock.MVarBankMain
import Cocurrency.Lock.MVarBankRuns
import Cocurrency.Actor.HaskellPrintServer
import Cocurrency.Actor.HaskellReplies
import Cocurrency.Coroutine.AsyncioProducerConsumer
import Cocurrency.Lib.LockOrder
import Cocurrency.Lock.DeadlockDemo
import Cocurrency.Lib.Synchronized
import Cocurrency.Lib.SynchronizedSerial
import Cocurrency.Lib.SynchronizedHalts
import Cocurrency.Lock.ScalaBank
import Cocurrency.Lock.ScalaTransfers
import Cocurrency.Lock.ScalaStatement
