import EventLib.LabelledRuns
import EventLib.Errno
import EventLib.Buffer
import EventLib.BufferQueue
import EventLib.BufferFraming
import EventLib.BufferVprintf
import EventLib.BufferInvariant
import EventLib.Event
import EventLib.Stream
import EventLib.BufferCapacity
import EventLib.StreamOutput
import EventLib.PartialTransfer
import EventLib.StreamDirect
import EventLib.FailedWrite
import EventLib.Epoll
import EventLib.Eventloop
import EventLib.EpollInterest
import EventLib.Khlist
import EventLib.KhlistDictionary
import EventLib.KhlistDelete
import EventLib.KhlistExpand
import EventLib.KhlistOrder
import EventLib.KhlistLifecycle
import EventLib.Rwlock
import EventLib.RwlockProgress
import EventLib.EventloopThreads
import EventLib.EventloopRequests
import EventLib.EventloopExit
import EventLib.CriticalSections
import EventLib.EventloopLock
import EventLib.Thread
import EventLib.ThreadNew
import EventLib.StreamInput
import EventLib.StreamFilling
import EventLib.StreamOrder
import EventLib.StreamSeek
import EventLib.FileStream
import EventLib.StreamLock
import EventLib.StreamDirections
import EventLib.EnabledFlag
import EventLib.EdgeTriggered
import EventLib.ListenerBacklog
import EventLib.ListenerBind
import EventLib.SocketReceive
import EventLib.EchoServer
import EventLib.SocketWouldBlock
import EventLib.Connector
import EventLib.ConnectorReuse
import EventLib.ResourceLedger
import EventLib.Ownership
import EventLib.LoopOwnership
import EventLib.Sockaddr
import EventLib.NetTransport
import EventLib.NetSockets
import EventLib.NetLedger
import EventLib.FdLimit
import EventLib.PositionalCode
import EventLib.TempFile
import EventLib.DecimalText
import EventLib.PidFile
import EventLib.DispatchSafety
