import EzRemote.Lib.SortedMap
import EzRemote.Download.History

/-!
# The package map and its history file

`pkg_install_history` of `config.cpp` with `AddPackageInstallHostData`,
`SavePackageInstallHostData` and `LoadPackageInstallHostData`.  A `std::map`
iterates in key order, and the file has its records in that order.
-/

namespace EzRemote.History

open Download

structure PackageInstallData where
  hostInfo : HostInfo
  path : Bytes
  size : UInt64
  timestamp : UInt64
  deriving DecidableEq, Repr

abbrev PkgInstallHistory := SortedMap Bytes PackageInstallData

def addPackageInstallHostData (pkgInstallHistory : PkgInstallHistory) (hash : Bytes)
    (pkgData : PackageInstallData) : PkgInstallHistory :=
  pkgInstallHistory.insert hash pkgData

/-- The retention test of `SavePackageInstallHostData`. -/
def retainedPackage (now : UInt64) (it : Bytes × PackageInstallData) : Bool :=
  now - it.2.timestamp < maxPkgHistoryRetention

variable (c : Cipher)

def savePackageItem (it : Bytes × PackageInstallData) : JsonObject :=
  [("hash", .string (cStr it.1)), ("url", .string (cStr it.2.hostInfo.url)),
    ("path", .string (cStr it.2.path)), ("username", .string (cStr it.2.hostInfo.username)),
    ("type", .int it.2.hostInfo.type), ("timestamp", .uint64 it.2.timestamp),
    ("file_size", .uint64 it.2.size)] ++
  (if it.2.hostInfo.type = ClientType.httpServer.toInt then
    [("http_server_type", .string (cStr it.2.hostInfo.httpServerType))] else []) ++
  [("password", .string (cStr (savedPassword c it.2.hostInfo.password)))]

/-- `SavePackageInstallHostData`: the map without the records that it erases,
and what the file holds afterwards. -/
def savePackageInstallHostData (now : UInt64) (pkgInstallHistory : PkgInstallHistory) :
    PkgInstallHistory × List JsonObject :=
  let kept := pkgInstallHistory.filter (retainedPackage now)
  (kept, kept.entries.map (savePackageItem c))

def loadPackageItem (o : JsonObject) : Option (Bytes × PackageInstallData) := do
  let hash ← jsonGetString o "hash"
  let url ← jsonGetString o "url"
  let path ← jsonGetString o "path"
  let username ← jsonGetString o "username"
  let encryptedPassword ← jsonGetString o "password"
  let type ← getInt o "type"
  let timestamp ← getUint64 o "timestamp"
  let size ← getUint64 o "file_size"
  let httpServerType ←
    if type = ClientType.httpServer.toInt then jsonGetString o "http_server_type" else some []
  let password := (c.decrypt encryptedPassword).getD encryptedPassword
  pure (hash, { hostInfo := ⟨type, url, httpServerType, username, password⟩, path, size, timestamp })

/-- `LoadPackageInstallHostData` into an empty map. -/
def loadPackageInstallHostData (file : List JsonObject) : Option PkgInstallHistory :=
  (file.mapM (loadPackageItem c)).map fun items =>
    items.foldl (fun m it => addPackageInstallHostData m it.1 it.2) .empty

/-- A host after a save and a load. -/
def reloadedHost (h : HostInfo) : HostInfo :=
  let encryptedPassword := cStr (savedPassword c h.password)
  { type := clampInt32 h.type
    url := cStr h.url
    httpServerType := if h.type = ClientType.httpServer.toInt then cStr h.httpServerType else []
    username := cStr h.username
    password := (c.decrypt encryptedPassword).getD encryptedPassword }

/-- An entry of the package map after a save and a load. -/
def reloadedPackage (it : Bytes × PackageInstallData) : Bytes × PackageInstallData :=
  (cStr it.1, { it.2 with hostInfo := reloadedHost c it.2.hostInfo, path := cStr it.2.path })

theorem reloaded_hostInfo (r : BgDownloadData) :
    (reloaded c r).hostInfo = reloadedHost c r.hostInfo := rfl

theorem loadPackageItem_savePackageItem (it : Bytes × PackageInstallData) :
    loadPackageItem c (savePackageItem c it) = some (reloadedPackage c it) := by
  by_cases ht : it.2.hostInfo.type = ClientType.httpServer.toInt
  · have hclamp : clampInt32 ClientType.httpServer.toInt = ClientType.httpServer.toInt := by decide
    simp [loadPackageItem, savePackageItem, reloadedPackage, reloadedHost, getInt, getUint64,
      jsonGetString, List.lookup_cons, ht, hclamp]
  · simp [loadPackageItem, savePackageItem, reloadedPackage, reloadedHost, getInt, getUint64,
      jsonGetString, List.lookup_cons, ht]

end EzRemote.History
