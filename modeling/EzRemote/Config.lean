import Mathlib.Logic.Basic

/-!
# Shared data model

The records of `config.h` and `clients/remote_client.h`.  A `std::string` is
the list of its bytes.
-/

namespace EzRemote

abbrev Bytes := List UInt8

/-- The bytes of an ASCII literal of the source. -/
def bytes (s : String) : Bytes := s.toList.map fun c => UInt8.ofNat c.toNat

/-- A literal is the list of its characters; rewriting with this is faster than evaluating. -/
theorem bytes_ofList (chars : List Char) :
    bytes (String.ofList chars) = chars.map fun c => UInt8.ofNat c.toNat := by
  unfold bytes
  rw [String.toList_ofList]

/-- `std::to_string(int)`. -/
def toDecimal (n : Int) : Bytes := bytes (toString n)

inductive ClientType
  | ftp | sftp | smb | webdav | httpServer | nfs | filehost | unknown
  deriving DecidableEq, Repr

def ClientType.toInt : ClientType → Int
  | .ftp => 0
  | .sftp => 1
  | .smb => 2
  | .webdav => 3
  | .httpServer => 4
  | .nfs => 5
  | .filehost => 6
  | .unknown => 7

def httpServerArchiveorg : Bytes := bytes "Archive.org"

def httpServerGithub : Bytes := bytes "Github"

/-- `struct HostInfo`; `type` is whatever integer the request carried. -/
structure HostInfo where
  type : Int
  url : Bytes
  httpServerType : Bytes
  username : Bytes
  password : Bytes
  deriving DecidableEq, Repr

/-- The four fields that name a server and an account on it. -/
def HostInfo.account (h : HostInfo) : Int × Bytes × Bytes × Bytes :=
  (h.type, h.url, h.username, h.password)

end EzRemote
