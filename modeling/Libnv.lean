import Libnv.Base.Base64Standard
import Libnv.Base.Crc16
import Libnv.Base.Dict
import Libnv.Base.Graph
import Libnv.Base.Heap
import Libnv.Base.IniLayout
import Libnv.Base.IniMeaning
import Libnv.Base.IniSettings
import Libnv.Base.Md5File
import Libnv.Base.PoolCalloc
import Libnv.Base.PoolGrants
import Libnv.Base.RbRepeated
import Libnv.Base.Select
import Libnv.Base.SignalTable
import Libnv.Bus.Deadlock
import Libnv.Bus.Registry
import Libnv.Bus.Topics
import Libnv.Cli.Accept
import Libnv.Cli.Arguments
import Libnv.Cli.Bounds
import Libnv.Cli.Login
import Libnv.Cli.Negotiation
import Libnv.Core.FailedLaunch
import Libnv.Core.LoadlibLine
import Libnv.Core.LoopCleanup
import Libnv.Core.Modules
import Libnv.Core.Numbers
import Libnv.Core.PluginDir
import Libnv.Core.PluginThreads
import Libnv.Core.Reload
import Libnv.Core.Strings
import Libnv.Event.IoBatch
import Libnv.Event.StopRequest
import Libnv.Event.StreamBuffer
import Libnv.Event.Tcp
import Libnv.Event.TimerWait
import Libnv.Log.Close
import Libnv.Log.EmitRing
import Libnv.Log.HexDump
import Libnv.Log.RingLife
import Libnv.Log.RotatePath
import Libnv.Sys.TimerBook
import Libnv.Sys.WaitIdle
