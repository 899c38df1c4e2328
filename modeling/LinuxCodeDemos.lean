import LinuxCodeDemos.Lib.Machine
import LinuxCodeDemos.Lib.Interleave
import LinuxCodeDemos.Udp.CircularBufferSpec
import LinuxCodeDemos.Udp.Piece
import LinuxCodeDemos.Udp.Walk
import LinuxCodeDemos.Udp.Wire
import LinuxCodeDemos.Udp.Group
import LinuxCodeDemos.Udp.Headers
import LinuxCodeDemos.Udp.Calls
import LinuxCodeDemos.Udp.RoundTrip
import LinuxCodeDemos.Udp.Chunking
import LinuxCodeDemos.Udp.Resync
import LinuxCodeDemos.Udp.Delivery
import LinuxCodeDemos.Udp.Bounds
import LinuxCodeDemos.Udp.Agree
import LinuxCodeDemos.Udp.EchoServer
import LinuxCodeDemos.Udp.Clients
import LinuxCodeDemos.TcpFile.Client
import LinuxCodeDemos.TcpFile.Server
import LinuxCodeDemos.TcpFile.Transfer
import LinuxCodeDemos.TcpFile.Upload
import LinuxCodeDemos.TcpFile.Segmentation
import LinuxCodeDemos.Lib.Lfsr
import LinuxCodeDemos.TcpFile.Burst
import LinuxCodeDemos.TcpFile.Corruption
import LinuxCodeDemos.Lib.Traced
import LinuxCodeDemos.TcpFile.Accesses
import LinuxCodeDemos.Epoll.Comm
import LinuxCodeDemos.Epoll.EchoServer
import LinuxCodeDemos.Epoll.Mirror
import LinuxCodeDemos.Epoll.Ownership
import LinuxCodeDemos.Epoll.Deadlines
import LinuxCodeDemos.Reactor.Server
import LinuxCodeDemos.Reactor.Table
import LinuxCodeDemos.Reactor.Isolation
import LinuxCodeDemos.Ngx.Master
import LinuxCodeDemos.Ngx.Slots
import LinuxCodeDemos.Ngx.Allocation
import LinuxCodeDemos.Ngx.Cycle
import LinuxCodeDemos.Ngx.Exit
import LinuxCodeDemos.Ngx.Announce
import LinuxCodeDemos.Ngx.Told
import LinuxCodeDemos.Lib.While
import LinuxCodeDemos.Lib.Grid
import LinuxCodeDemos.Bmp.Image
import LinuxCodeDemos.Bmp.Passes
import LinuxCodeDemos.Bmp.Draw
import LinuxCodeDemos.Memdev.Driver
import LinuxCodeDemos.Memdev.Files
import LinuxCodeDemos.NetUtils.Netlink
import LinuxCodeDemos.NetUtils.ProcRoute
import LinuxCodeDemos.NetUtils.Gateway
import LinuxCodeDemos.TcpFile.Checksum
import LinuxCodeDemos.Lib.File
import LinuxCodeDemos.TcpFile.Replace
import LinuxCodeDemos.Epoll.Failures
import LinuxCodeDemos.Epoll.TimeoutPass
import LinuxCodeDemos.Reactor.Accepted
import LinuxCodeDemos.Ngx.Started
import LinuxCodeDemos.Epoll.Watch
import LinuxCodeDemos.Epoll.Greeting
import LinuxCodeDemos.Epoll.Replies
import LinuxCodeDemos.Lib.Handles
import LinuxCodeDemos.PollServer.Server
import LinuxCodeDemos.PollServer.Vector
import LinuxCodeDemos.PollServer.Shutdown
import LinuxCodeDemos.WsaEventSelect.Server
import LinuxCodeDemos.WsaEventSelect.Arrays
import LinuxCodeDemos.WsaEventSelect.Closing
import LinuxCodeDemos.WsaAsyncSelect.Window
import LinuxCodeDemos.WsaAsyncSelect.Online
import LinuxCodeDemos.NailPrinter.Convert
import LinuxCodeDemos.NailPrinter.Colours
import LinuxCodeDemos.NailPrinter.Frame
import LinuxCodeDemos.NailPrinter.Args
import LinuxCodeDemos.NailPrinter.Base64
import LinuxCodeDemos.NailPrinter.SendFile
import LinuxCodeDemos.NailPrinter.ReceiveFile
import LinuxCodeDemos.Bmp.Headers
import LinuxCodeDemos.Bmp.Pixels
import LinuxCodeDemos.Bmp.Framebuffer
import LinuxCodeDemos.Bmp.Display
import LinuxCodeDemos.Lib.OnesComplement
import LinuxCodeDemos.NetInterface.Checksum
import LinuxCodeDemos.NetInterface.Packet
import LinuxCodeDemos.Lib.Field
import LinuxCodeDemos.SerialPort.Settings
import LinuxCodeDemos.NetUtils.Pairing
import LinuxCodeDemos.TestTouch.Input
import LinuxCodeDemos.MiniHttp.GetLine
import LinuxCodeDemos.MiniHttp.RequestLine
import LinuxCodeDemos.MiniHttp.Request
import LinuxCodeDemos.NetInterface.Dns
import LinuxCodeDemos.Framebuffer.Display
import LinuxCodeDemos.SerialPort.Write
import LinuxCodeDemos.TcpFile.Recover
import LinuxCodeDemos.Udp.Reads
import LinuxCodeDemos.NailPrinter.DecodeBlock
import LinuxCodeDemos.NailPrinter.RoundTrip
import LinuxCodeDemos.SvShm.Counts
import LinuxCodeDemos.SvShm.Transfer
import LinuxCodeDemos.TcpFile.Download
import LinuxCodeDemos.ThreadPool.EventManager
import LinuxCodeDemos.ThreadPool.IOBuffer
import LinuxCodeDemos.ThreadPool.TcpSocket
import LinuxCodeDemos.Lib.Chain
import LinuxCodeDemos.Lib.Circle
import LinuxCodeDemos.Util.Ctable
import LinuxCodeDemos.SvMsg.Completion
