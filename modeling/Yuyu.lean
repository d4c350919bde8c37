import Yuyu.ByteArray.FileReads
import Yuyu.ByteArray.FailedReads
import Yuyu.ByteArray.StringRoundTrip
import Yuyu.ByteArray.Files
import Yuyu.ByteArray.TlsVectors
import Yuyu.Config.Listeners
import Yuyu.Config.YamlLoading
import Yuyu.Config.TcpServerConf
import Yuyu.Config.Appenders
import Yuyu.Config.LogHistory
import Yuyu.Http.ChunkSafety
import Yuyu.Scheduler.Affinity
import Yuyu.Scheduler.PollTimeout
import Yuyu.Hook.Reuse
import Yuyu.Hook.Timeout
import Yuyu.Hook.NonblockFlag
import Yuyu.Hook.Sleep
import Yuyu.Hook.TimeoutOptions
import Yuyu.Hook.Connect
import Yuyu.Hook.TableBounds
import Yuyu.TcpServer
import Yuyu.Address.Ipv6Text
import Yuyu.Address.Lookup
import Yuyu.Http.Params
import Yuyu.Http.MethodNames
import Yuyu.Http.LeftoverMemory
import Yuyu.Http.BadLengths
import Yuyu.Http.Framing
import Yuyu.Http.PoolReuse
import Yuyu.Http.ResponseRoundTrip
import Yuyu.Http.Servlet
import Yuyu.Http.ContentEncoding
import Yuyu.Config.LogPattern
import Yuyu.Scheduler.Shutdown
import Yuyu.Timer.Table
import Yuyu.Uri.Dump
import Yuyu.Scheduler.FiberStates
import Yuyu.Http.Served
