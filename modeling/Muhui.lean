import Muhui.Config.Listener
import Muhui.Hook.Sweep
import Muhui.Hook.Timeout
import Muhui.Scheduler.Exclusion
import Muhui.Timer.Emptiness
import Muhui.Timer.Wakeup
import Muhui.Scheduler.Conservation
import Muhui.Shutdown.Basic
import Muhui.Shutdown.Evaluation
import Muhui.Shutdown.Next
import Muhui.Shutdown.Truthful
import Muhui.Shutdown.Drain
import Muhui.Hook.Calls
import Muhui.Hook.Once
import Muhui.Scanner.Basic
import Muhui.Scanner.Reads
import Muhui.Scanner.Table
import Muhui.Container.RankedMap
import Muhui.Http.Bytes
import Muhui.Http.Message
import Muhui.Http.Methods
import Muhui.Http.Execute
import Muhui.Http.BodyLength
import Muhui.Http.EndOfStream
import Muhui.Http.RequestParser
import Muhui.Http.Session
import Muhui.Http.Reads
import Muhui.Http.Arrival
import Muhui.Http.RequestFragment
import Muhui.Http.Stream
import Muhui.Http.Fragmentation
import Muhui.Http.Tokens
import Muhui.Http.RequestRoundTrip
import Muhui.Http.ResponceParser
import Muhui.Http.ResponceFragment
import Muhui.Http.ResponceRoundTrip
import Muhui.Container.KeyedList
import Muhui.Servlet.Dispatch
import Muhui.Descriptors.Contexts
import Muhui.ByteArray.Basic
import Muhui.Config.Yaml
import Muhui.Descriptors.Nonblock
import Muhui.Descriptors.Race
import Muhui.ByteArray.Wellformed
import Muhui.ByteArray.Flat
import Muhui.ByteArray.Position
import Muhui.ByteArray.FileRoundTrip
import Muhui.ByteArray.Varint
import Muhui.ByteArray.Vectors
import Muhui.Log.Reload
import Muhui.Log.FileAppender
import Muhui.ByteArray.Codec
import Muhui.ByteArray.Reading
import Muhui.ByteArray.RoundTrip
import Muhui.ByteArray.Safety
import Muhui.ByteArray.Retry
import Muhui.ByteArray.StringRoundTrip
import Muhui.Streams.SocketStream
import Muhui.Timer.Expiry
import Muhui.Timer.Early
import Muhui.Encoding.Signed
import Muhui.IOManager.EpollWait
import Muhui.Hook.Sleep
import Muhui.Hook.Connect
import Muhui.Scheduler.Pinned
import Muhui.Encoding.Mask
import Muhui.Address.IPv4
import Muhui.Address.IPv6
import Muhui.Encoding.AddressText
import Muhui.Address.Text
import Muhui.Http.Lookup
import Muhui.Address.Lookup
import Muhui.Log.Pattern
import Muhui.Config.Document
import Muhui.Config.LexcalCast
import Muhui.Log.Define
import Muhui.Log.Dump
import Muhui.TcpServer.Conf
import Muhui.Log.Formatters
import Muhui.Config.FromString
import Muhui.Streams.SSLSocket
import Muhui.Streams.Connected
import Muhui.Address.Unix
import Muhui.FileTree.Rm
import Muhui.Text.Trim
import Muhui.Text.Escape
import Muhui.Text.Hex
import Muhui.Text.UrlCode
import Muhui.Text.Base64
import Muhui.Text.Search
import Muhui.Text.Split
import Muhui.Text.Replace
import Muhui.Text.Hash
import Muhui.Text.YamlJson
import Muhui.FileTree.Mv
import Muhui.FileTree.Mkdir
import Muhui.FileTree.ListAllFile
import Muhui.Container.SortedList
import Muhui.Util.BinarySearch
import Muhui.Util.WithSpeed
import Muhui.Streams.FixSize
import Muhui.Descriptors.Timeouts
import Muhui.Address.Order
import Muhui.Http.RequestTable
import Muhui.Http.ResponceTable
import Muhui.Http.Server
import Muhui.Http.Generated
import Muhui.Http.Accepted
import Muhui.TcpServer.Stopping
import Muhui.Fiber.Contexts
import Muhui.Fiber.Pool
