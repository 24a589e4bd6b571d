import FtpOverUdp.Library.System
import FtpOverUdp.Library.Progress
import FtpOverUdp.Library.DelayLine
import FtpOverUdp.Library.Reassembly
import FtpOverUdp.Library.Table
import FtpOverUdp.Library.TableKeys
import FtpOverUdp.Library.Loop
import FtpOverUdp.Library.Serial
import FtpOverUdp.Library.LastSeparator
import FtpOverUdp.Common.Msg
import FtpOverUdp.Common.File
import FtpOverUdp.Common.Sender
import FtpOverUdp.Common.SenderFrame
import FtpOverUdp.Common.SenderWindow
import FtpOverUdp.Common.SenderRun
import FtpOverUdp.Common.SenderThreads
import FtpOverUdp.Common.Receiver
import FtpOverUdp.Common.ReceiverView
import FtpOverUdp.Common.ReceiverRun
import FtpOverUdp.Common.ReceiverOrder
import FtpOverUdp.Common.AsyncLock
import FtpOverUdp.Router.Router
import FtpOverUdp.Router.Path
import FtpOverUdp.Router.Backlog
import FtpOverUdp.Router.Run
import FtpOverUdp.Transfer.System
import FtpOverUdp.Transfer.Integrity
import FtpOverUdp.Transfer.Completion
import FtpOverUdp.Transfer.Stream
import FtpOverUdp.Transfer.Progress
import FtpOverUdp.Transfer.Acknowledgement
import FtpOverUdp.Transfer.Fifo
import FtpOverUdp.UdpServer.ServerThread
import FtpOverUdp.UdpServer.RunSpec
import FtpOverUdp.UdpServer.Named
import FtpOverUdp.UdpServer.Numbers
import FtpOverUdp.UdpServer.FileLock
import FtpOverUdp.UdpServer.FtpServer
import FtpOverUdp.UdpServer.SessionTables
import FtpOverUdp.UdpServer.Capacity
import FtpOverUdp.UdpServer.DirectoryListing
import FtpOverUdp.UdpServer.SaveFile
import FtpOverUdp.UdpServer.FileStore
import FtpOverUdp.UdpServer.Service
import FtpOverUdp.UdpServer.ServiceFiles
import FtpOverUdp.UdpServer.Rehandshake
import FtpOverUdp.UdpServer.HandOff
import FtpOverUdp.UdpServer.Worker
import FtpOverUdp.UdpClient.Upload
import FtpOverUdp.UdpClient.UploadSafety
import FtpOverUdp.UdpClient.RoutedUpload
import FtpOverUdp.UdpClient.RoutedUploadSafety
import FtpOverUdp.UdpClient.RoutedUploadOutcome
import FtpOverUdp.UdpClient.Download
import FtpOverUdp.UdpClient.DownloadLines
import FtpOverUdp.UdpClient.DownloadClient
import FtpOverUdp.UdpClient.DownloadSafety
import FtpOverUdp.UdpClient.DownloadOutcome
import FtpOverUdp.UdpClient.FileSize
import FtpOverUdp.UdpClient.Rename
import FtpOverUdp.UdpClient.RenameSafety
import FtpOverUdp.UdpClient.Menu
import FtpOverUdp.UdpClient.MenuNumbers
import FtpOverUdp.Session.Network
import FtpOverUdp.Session.Invariant
import FtpOverUdp.Session.ClientSteps
import FtpOverUdp.Session.ServerSteps
import FtpOverUdp.Session.Agreement
import FtpOverUdp.Session.Isolation
import FtpOverUdp.Session.Turn
import FtpOverUdp.Session.Lockout
import FtpOverUdp.Session.UploadSession
import FtpOverUdp.Session.UploadSync
import FtpOverUdp.Session.UploadsInOrder
import FtpOverUdp.Wire.Datagram
import FtpOverUdp.Wire.Layout
import FtpOverUdp.Wire.RoundTrip
import FtpOverUdp.Wire.Access
import FtpOverUdp.Wire.Bounds
import FtpOverUdp.Wire.Intake
import FtpOverUdp.UdpClientMuxer.Muxer
import FtpOverUdp.UdpClientMuxer.Routing
