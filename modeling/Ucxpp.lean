import Ucxpp.Lib.Lts
import Ucxpp.Lib.Trace
import Ucxpp.Status
import Ucxpp.Awaitable
import Ucxpp.AwaitRun
import Ucxpp.AwaitResults
import Ucxpp.Task
import Ucxpp.TaskLifetime
import Ucxpp.TaskLeak
import Ucxpp.TaskProgram
import Ucxpp.TaskEval
import Ucxpp.TaskEvalStep
import Ucxpp.TaskEvalLog
import Ucxpp.TaskEvalRun
import Ucxpp.Endpoint
import Ucxpp.EndpointRun
import Ucxpp.EndpointInv
import Ucxpp.EndpointClosed
import Ucxpp.EndpointTeardown
import Ucxpp.EndpointUse
import Ucxpp.EndpointLifetime
import Ucxpp.Lib.Bytes
import Ucxpp.Serdes
import Ucxpp.SerdesSequence
import Ucxpp.AddressExchange
import Ucxpp.AddressExchangeRun
import Ucxpp.AddressExchangeShort
import Ucxpp.AddressExchangeThrown
import Ucxpp.Lib.RefCount
import Ucxpp.Lib.Ledger
import Ucxpp.Ownership
import Ucxpp.OwnershipInv
import Ucxpp.Teardown
import Ucxpp.Conservation
import Ucxpp.Released
import Ucxpp.OwnershipUse
import Ucxpp.Lib.Resource
import Ucxpp.Acquire
import Ucxpp.Cancel
import Ucxpp.CancelPending
import Ucxpp.CancelNext
import Ucxpp.EventLoop
import Ucxpp.EventLoopTable
import Ucxpp.EventLoopFrame
import Ucxpp.EventLoopResume
import Ucxpp.WorkerEpoll
import Ucxpp.WorkerEpollWakeup
import Ucxpp.WorkerEpollShutdown
import Ucxpp.WorkerEpollMain
import Ucxpp.TaskUnwind
import Ucxpp.EventLoopRegister
import Ucxpp.EventLoopWaits
import Ucxpp.EventLoopHandles
import Ucxpp.EventLoopContract
import Ucxpp.ContextBuilder
import Ucxpp.RkeyExchange
import Ucxpp.RkeyExchangeRun
import Ucxpp.Lib.Memory
import Ucxpp.Atomics
import Ucxpp.AtomicsRun
import Ucxpp.Perftest
import Ucxpp.PerftestRun
import Ucxpp.PerftestAgree
import Ucxpp.PerftestReport
import Ucxpp.PerftestStream
import Ucxpp.PerftestStreamRun
import Ucxpp.PerftestStreamServed
import Ucxpp.Lib.Family
import Ucxpp.Helloworld
import Ucxpp.HelloworldRun
import Ucxpp.HelloworldPrints
import Ucxpp.AcceptLoop
import Ucxpp.AcceptLoopRun
import Ucxpp.AcceptLoopServed
import Ucxpp.Sockets
import Ucxpp.SocketsOwned
import Ucxpp.Lib.Decimal
import Ucxpp.PerftestOptions
import Ucxpp.PerftestOptionsRead
