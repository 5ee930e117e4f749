import SpartanLauncher.Lib.CString
import SpartanLauncher.Lib.Machine
import SpartanLauncher.Message
import SpartanLauncher.DispatchQueue
import SpartanLauncher.Launcher
import SpartanLauncher.Registry
import SpartanLauncher.ProcessGroups
import SpartanLauncher.Admission
import SpartanLauncher.Capacity
import SpartanLauncher.ReceiveLoop
import SpartanLauncher.SendMqMsg
import SpartanLauncher.ChildNotify
import SpartanLauncher.Client
import SpartanLauncher.PipeFilter
import SpartanLauncher.Routing
import SpartanLauncher.Lib.Quoting
import SpartanLauncher.Transport
import SpartanLauncher.Lib.KeepFirst
import SpartanLauncher.JvmOptions
import SpartanLauncher.MergeOptions
import SpartanLauncher.Lib.Alternation
import SpartanLauncher.ReadLine
import SpartanLauncher.LineSplitting
import SpartanLauncher.LineDelivery
import SpartanLauncher.Lib.IStream
import SpartanLauncher.SessionState
import SpartanLauncher.Lib.Memory
import SpartanLauncher.SharedMemory
import SpartanLauncher.Lib.Purge
import SpartanLauncher.AnnotationScan
import SpartanLauncher.EntryPoints
import SpartanLauncher.InvokeJavaMethod
import SpartanLauncher.ReadOnReady
import SpartanLauncher.EchoStreams
import SpartanLauncher.Lib.Pruning
import SpartanLauncher.FindFiles
import SpartanLauncher.WalkListing
import SpartanLauncher.WalkFileTree
import SpartanLauncher.DepthFirst
import SpartanLauncher.FinalTerminate
import SpartanLauncher.UnknownTypes
import SpartanLauncher.FileSearch
import SpartanLauncher.Consolidation
import SpartanLauncher.ChildCommands
import SpartanLauncher.Configuration
import SpartanLauncher.ShmAlloc
import SpartanLauncher.StreamMaps
import SpartanLauncher.Lib.Unquoted
import SpartanLauncher.JvmArgs
import SpartanLauncher.LibraryPath
import SpartanLauncher.Lib.ChunkedSplit
import SpartanLauncher.LineBuffering
import SpartanLauncher.Flow
import SpartanLauncher.DrainProcesses
import SpartanLauncher.OptionArrays
import SpartanLauncher.StrSplit
import SpartanLauncher.SocketAddress
import SpartanLauncher.Lib.Rejection
import SpartanLauncher.RandomNumber
import SpartanLauncher.QueueNames
import SpartanLauncher.QueueLifetime
import SpartanLauncher.QueueStartUp
import SpartanLauncher.PidFile
import SpartanLauncher.Lib.Scoped
import SpartanLauncher.ResponseChannel
import SpartanLauncher.ResponseStream
import SpartanLauncher.Lib.Lines
import SpartanLauncher.IniFile
import SpartanLauncher.ConfigFile
import SpartanLauncher.ServiceCondition
import SpartanLauncher.MethodSelection
import SpartanLauncher.DispatchProgress
import SpartanLauncher.Shutdown
import SpartanLauncher.InvokeCommand
import SpartanLauncher.ChildOrder
import SpartanLauncher.MessageKinds
import SpartanLauncher.VisitorBridge
import SpartanLauncher.JavaWalk
