import UnixProgramming.Library.Fallible
import UnixProgramming.Library.Transition
import UnixProgramming.Library.LockOrder
import UnixProgramming.Library.Linked
import UnixProgramming.Library.DoublyLinked
import UnixProgramming.Library.CMemory
import UnixProgramming.Library.LittleEndian
import UnixProgramming.Library.Descriptor
import UnixProgramming.Library.Sink
import UnixProgramming.Library.Transfer
import UnixProgramming.Library.Timespec
import UnixProgramming.Library.File
import UnixProgramming.Library.Pipe
import UnixProgramming.Library.SlotSum
import UnixProgramming.Library.SlotTable
import UnixProgramming.Library.Ledger
import UnixProgramming.Library.Strtok
import UnixProgramming.Library.CString
import UnixProgramming.Library.Worklist
import UnixProgramming.FooTable.Table
import UnixProgramming.FooTable.Sections
import UnixProgramming.FooTable.TwoLock
import UnixProgramming.FooTable.Locks
import UnixProgramming.FooTable.CoarseLock
import UnixProgramming.OpenServer.ClientTable
import UnixProgramming.OpenServer.ClientMap
import UnixProgramming.Unp.Readline
import UnixProgramming.Unp.ReadersAgree
import UnixProgramming.Unp.LineLaw
import UnixProgramming.Unp.MyRead
import UnixProgramming.Unp.ReadLog
import UnixProgramming.Unp.ReadErrors
import UnixProgramming.UnixDomain.ReadFd
import UnixProgramming.Unp.Interleaved
import UnixProgramming.Unp.Records
import UnixProgramming.EchoTcp.Session
import UnixProgramming.EchoTcp.Integrity
import UnixProgramming.EchoTcp.BinSum
import UnixProgramming.FdPassing.Protocol
import UnixProgramming.FdPassing.RoundTrip
import UnixProgramming.FdPassing.Verdict
import UnixProgramming.FdPassing.SendErr
import UnixProgramming.EchoUdp.Pairing
import UnixProgramming.EchoUdp.Timeout
import UnixProgramming.FdPassing.ErrorReply
import UnixProgramming.OpenServer.Request
import UnixProgramming.OpenServer.RequestCodec
import UnixProgramming.OpenServer.History
import UnixProgramming.OpenServer.Serve
import UnixProgramming.AioTest.Machine
import UnixProgramming.AioTest.Translation
import UnixProgramming.EchoTcp.Children
import UnixProgramming.Pty.Fork
import UnixProgramming.Pty.Loop
import UnixProgramming.SocketSetup.Helpers
import UnixProgramming.SocketSetup.NoLeak
import UnixProgramming.TellWait.Pipes
import UnixProgramming.TellWait.Signals
import UnixProgramming.TermIo.Modes
import UnixProgramming.Daemon.Lock
import UnixProgramming.CondTest.Queue
import UnixProgramming.CondTest.Delivery
import UnixProgramming.SignalTest.Quit
import UnixProgramming.PollServer.Slots
import UnixProgramming.PollServer.Ready
import UnixProgramming.PollServer.Echo
import UnixProgramming.Unp.Writen
import UnixProgramming.SelectServer.Echo
import UnixProgramming.BarrierSort.Pipeline
import UnixProgramming.BarrierSort.Heapsort
import UnixProgramming.BarrierSort.Rounds
import UnixProgramming.Apue.Transfer
import UnixProgramming.Timeout.Schedule
import UnixProgramming.JobQueue.Queue
import UnixProgramming.JobQueue.Ends
import UnixProgramming.JobQueue.Find
import UnixProgramming.Popen.ChildTable
import UnixProgramming.EchoTcp.StrEcho
import UnixProgramming.EchoTcp.Dialog
import UnixProgramming.EchoTcp.Selecting
import UnixProgramming.Getenv.Lookup
import UnixProgramming.Getenv.Buffers
import UnixProgramming.Network.ConnectRetry
import UnixProgramming.Network.TcpConnect
import UnixProgramming.MmapCopy.Windows
import UnixProgramming.Ftw.Totals
import UnixProgramming.Ftw.Dopath
import UnixProgramming.Ftw.Preorder
import UnixProgramming.Ttyname.Search
import UnixProgramming.Ttyname.Devdirs
import UnixProgramming.Ttyname.Plan
import UnixProgramming.Ttyname.Pathname
import UnixProgramming.Ttyname.Follows
import UnixProgramming.Ttyname.Bounds
import UnixProgramming.Ttyname.Tree
import UnixProgramming.Ttyname.Complete
import UnixProgramming.Popen.CleanFailure
import UnixProgramming.Popen.ChildPipe
import UnixProgramming.Coprocess.Pairing
import UnixProgramming.Coprocess.Ends
import UnixProgramming.OpenServer.BufArgs
import UnixProgramming.OpenServer.ArgvBounds
import UnixProgramming.MessageQueue.Forward
import UnixProgramming.ProcessControl.Schedule
import UnixProgramming.ProcessRelation.SystemM1
import UnixProgramming.ProcessRelation.Sleep
import UnixProgramming.ProcessRelation.Abort
import UnixProgramming.ProcessRelation.SignalSet
import UnixProgramming.Unp.SockNtop
import UnixProgramming.DaytimeTcp.InetText
