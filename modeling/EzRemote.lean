import EzRemote.Lib.Transition
import EzRemote.Lib.Counting
import EzRemote.Config
import EzRemote.Lib.Separator
import EzRemote.Pool.Client
import EzRemote.Pool.Model
import EzRemote.Pool.Sections
import EzRemote.Pool.Ownership
import EzRemote.Pool.Accounts
import EzRemote.Pool.Reuse
import EzRemote.Download.History
import EzRemote.Download.Thread
import EzRemote.Download.Steps
import EzRemote.Download.Progress
import EzRemote.Download.Restart
import EzRemote.Util
import EzRemote.Transfer.Local
import EzRemote.Transfer.Http
import EzRemote.Transfer.Copy
import EzRemote.Transfer.Resume
import EzRemote.Lib.Lockstep
import EzRemote.Ftp.Handle
import EzRemote.Ftp.Client
import EzRemote.Ftp.Framing
import EzRemote.Ftp.Reuse
import EzRemote.Ftp.Commands
import EzRemote.Ftp.LocalFile
import EzRemote.Transfer.LocalFailure
import EzRemote.Lib.SortedMap
import EzRemote.History.Base64
import EzRemote.History.Package
import EzRemote.History.Password
import EzRemote.History.RoundTrip
import EzRemote.History.Retention
import EzRemote.Download.Tracked
import EzRemote.Download.Working
import EzRemote.Download.Rows
import EzRemote.Download.Clear
import EzRemote.Download.StayCleared
import EzRemote.Lib.Durable
import EzRemote.History.PackageStore
import EzRemote.History.Server
import EzRemote.History.PackageDurable
import EzRemote.History.DownloadDurable
import EzRemote.History.NoneLost
import EzRemote.Lib.Rewrite
import EzRemote.History.Shutdown
import EzRemote.Download.Pause
import EzRemote.Transfer.Range
import EzRemote.Lib.Total
import EzRemote.Ftp.Range
import EzRemote.Pool.Connect
import EzRemote.Download.FileRows
import EzRemote.History.Acquire
import EzRemote.Lib.Lifetime
import EzRemote.Session.Nfs
import EzRemote.Session.Sftp
import EzRemote.Ftp.Frame
import EzRemote.Session.Connect
import EzRemote.Session.Live
import EzRemote.Ftp.Segments
import EzRemote.Ftp.Readline
import EzRemote.Ftp.Access
import EzRemote.Ftp.Pasv
import EzRemote.Lib.Logged
import EzRemote.Ftp.OneLine
import EzRemote.Transfer.HttpRange
import EzRemote.Download.Attempts
import EzRemote.Download.Retries
import EzRemote.History.Retries
import EzRemote.Lib.Buffer
import EzRemote.Lib.StandardBase64
import EzRemote.History.Crypt
import EzRemote.History.Base64Memory
import EzRemote.Lib.Tokens
import EzRemote.Clients.Cookies
import EzRemote.Clients.FullPath
import EzRemote.Clients.Retarget
import EzRemote.Lib.Json
import EzRemote.Notify.Escape
import EzRemote.Notify.RichNotify
import EzRemote.Lib.Decimal
import EzRemote.Lib.Regex
import EzRemote.Http.Text
import EzRemote.Http.RangeHeader
import EzRemote.Lib.Emit
import EzRemote.Http.ServeRange
import EzRemote.Lib.Walk
import EzRemote.Http.StaticFile
import EzRemote.Http.Url
import EzRemote.Http.ThreadPool
import EzRemote.Session.Smb
import EzRemote.IniFile
import EzRemote.Lib.Reader
import EzRemote.Http.LineReader
import EzRemote.Http.SocketStream
import EzRemote.Http.ReadContent
import EzRemote.Http.ChunkedBody
import EzRemote.Http.GetBody
import EzRemote.Http.KeepAlive
import EzRemote.Http.ProcessRequest
import EzRemote.Http.WriteChunked
import EzRemote.Session.FtpLogin
import EzRemote.Session.Acquire
