import EzRemote.Config

/-!
# Pooled clients

`CreatePooledClient` and `ClientPoolKey` of `server/http_server.cpp`, with what
the pool reads of a client: its class, its idle limit and the transfer state
that `ResetTransferState` clears.
-/

namespace EzRemote.Pool

/-- The client classes that `CreatePooledClient` constructs. -/
inductive ClientClass
  | ftpClient | sftpClient | smbClient | nfsClient | webDAVClient | archiveOrgClient | baseClient
  deriving DecidableEq, Repr

/-- `GetMaxIdleTimeout()`: `BaseClient` overrides the default of five minutes
and its subclasses inherit the override. -/
def ClientClass.getMaxIdleTimeout : ClientClass → Int
  | .webDAVClient | .archiveOrgClient | .baseClient => 7 * 24 * 60 * 60
  | .ftpClient | .sftpClient | .smbClient | .nfsClient => 5 * 60

/-- The callback fields of `ftphandle`; the default is that of `ClearHandle`. -/
structure TransferState where
  xfercb : Option Nat := none
  cbarg : Option Nat := none
  cbbytes : Int := 0
  deriving DecidableEq, Repr

/-- A constructed client.  `id` numbers the constructor calls and `host` records
the arguments of `Connect`; no code reads either. -/
structure RemoteClient where
  id : Nat
  cls : ClientClass
  host : HostInfo
  urlEncode : Bool := true
  transfer : TransferState := {}
  deriving DecidableEq, Repr

/-- `ResetTransferState()`, which only `FtpClient` overrides. -/
def RemoteClient.resetTransferState (c : RemoteClient) : RemoteClient :=
  match c.cls with
  | .ftpClient => { c with transfer := {} }
  | _ => c

/-- The `new` chain of `CreatePooledClient`; `none` is the null pointer. -/
def newClient (h : HostInfo) : Option ClientClass :=
  if h.type = ClientType.smb.toInt then some .smbClient
  else if h.type = ClientType.sftp.toInt then some .sftpClient
  else if h.type = ClientType.nfs.toInt then some .nfsClient
  else if h.type = ClientType.ftp.toInt then some .ftpClient
  else if h.type = ClientType.webdav.toInt then some .webDAVClient
  else if h.type = ClientType.httpServer.toInt then
    if h.httpServerType = httpServerArchiveorg then some .archiveOrgClient else some .baseClient
  else if h.type = ClientType.filehost.toInt then some .baseClient
  else none

/-- The path encoding set after `Connect`: `SetClientPathEncoding(false)` for a
Github host, else the default of `httplib::Client`. -/
def pathEncoding (h : HostInfo) : Bool :=
  !(h.type = ClientType.httpServer.toInt ∧ h.httpServerType = httpServerGithub)

/-- What `CreatePooledClient` makes for `h`: the class and the path encoding. -/
def createPooledClient (h : HostInfo) : Option (ClientClass × Bool) :=
  (newClient h).map fun c => (c, pathEncoding h)

/-- The separator of `ClientPoolKey`. -/
def bar : UInt8 := 124

def clientPoolKey (h : HostInfo) : Bytes :=
  toDecimal h.type ++ bar :: (h.url ++ bar :: (h.username ++ bar :: h.password))

/-- What the pool depends on outside the repository's own code: whether the
constructor of `httplib::Client` throws on the url that a class of the HTTP
family was given. -/
structure Env where
  httpClientThrows : ClientClass → Bytes → Bool

/-- Whether `Connect` leaves by an exception: `url.substr(6)` and
`url.substr(7)` throw when the position exceeds the length. -/
def connectThrows (E : Env) (h : HostInfo) : Bool :=
  match newClient h with
  | some .ftpClient => h.url.length < 6
  | some .sftpClient => h.url.length < 7
  | some .smbClient | some .nfsClient => false
  | some c => E.httpClientThrows c h.url
  | none => false

end EzRemote.Pool
