import Mathlib.Data.List.Forall2
import EzRemote.Util

/-!
# The download list and its history file

`BgDownloadData` of `config.h` with `SaveBgDownloadData` and
`LoadBgDownloadData` of `config.cpp`.  The file is the list of the JSON objects
that a save builds; json-c writes and reads it unchanged.
-/

namespace EzRemote.Download

inductive DownloadState
  | pending | downloading | resumed | failed | success
  deriving DecidableEq, Repr

namespace DownloadState

def toInt : DownloadState → Int
  | .pending => 0
  | .downloading => 1
  | .resumed => 2
  | .failed => 3
  | .success => 4

/-- `static_cast<DownloadState>`; any other number is no state at all. -/
def ofInt (n : Int) : Option DownloadState :=
  [.pending, .downloading, .resumed, .failed, .success].find? fun s => s.toInt = n

end DownloadState

structure BgDownloadData where
  hostInfo : HostInfo
  srcPath : Bytes
  destPath : Bytes
  bytesTransfered : UInt64
  fileSize : UInt64
  state : DownloadState
  id : UInt64
  timestamp : UInt64
  failedAttempts : Int
  removeRequested : Bool := false
  deriving DecidableEq, Repr

namespace BgDownloadData

variable (r : BgDownloadData)

/-- What `/clear_download_history` looks for. -/
def Finished : Prop := r.state = .success ∨ r.state = .failed ∧ 5 ≤ r.failedAttempts

/-- The condition of the resume branch of `DownloadFilesThread`. -/
def Interrupted : Prop := r.state = .downloading ∨ r.state = .failed ∧ r.failedAttempts < 5

/-- What a pass of `DownloadFilesThread` picks up. -/
def Eligible : Prop := r.state = .pending ∨ r.Interrupted

instance : Decidable r.Finished := inferInstanceAs (Decidable (_ ∨ _))
instance : Decidable r.Interrupted := inferInstanceAs (Decidable (_ ∨ _))
instance : Decidable r.Eligible := inferInstanceAs (Decidable (_ ∨ _))

/-- Only `STATE_RESUMED` is neither finished nor picked up again. -/
theorem finished_or_eligible_iff : r.Finished ∨ r.Eligible ↔ r.state ≠ .resumed := by
  unfold Finished Eligible Interrupted
  cases r.state <;> simp
  omega

end BgDownloadData

/-- The json-c values that a save creates. -/
inductive Json
  | int (n : Int)
  | uint64 (n : UInt64)
  | string (b : Bytes)
  deriving DecidableEq, Repr

abbrev JsonObject := List (String × Json)

/-- What json-c does to an integer that it returns as an `int`. -/
def clampInt32 (n : Int) : Int := max (-2147483648) (min n 2147483647)

/-- `json_object_get_int`; `none` where json-c would convert a value of another
type, which no save writes. -/
def getInt (o : JsonObject) (key : String) : Option Int :=
  match o.lookup key with
  | none => some 0
  | some (.int n) => some (clampInt32 n)
  | some (.uint64 n) => some (clampInt32 n.toNat)
  | some (.string _) => none

/-- `json_object_get_uint64`. -/
def getUint64 (o : JsonObject) (key : String) : Option UInt64 :=
  match o.lookup key with
  | none => some 0
  | some (.int n) => some (UInt64.ofNat n.toNat)
  | some (.uint64 n) => some n
  | some (.string _) => none

def jsonGetString (o : JsonObject) (key : String) : Option Bytes :=
  match o.lookup key with
  | none => some []
  | some (.string b) => some b
  | some _ => none

/-- `CONFIG::Encrypt` and `CONFIG::Decrypt`, with `none` for the result 0. -/
structure Cipher where
  encrypt : Bytes → Option Bytes
  decrypt : Bytes → Option Bytes

/-- `MAX_PKG_HISTORY_RETENTION`, in microseconds. -/
def maxPkgHistoryRetention : UInt64 := 1209600000000

/-- The retention test of a save; the difference of two `uint64_t` wraps. -/
def retained (now : UInt64) (it : BgDownloadData) : Bool :=
  now - it.timestamp < maxPkgHistoryRetention

variable (c : Cipher)

def savedPassword (password : Bytes) : Bytes :=
  if password = [] then [] else (c.encrypt password).getD []

def saveItem (it : BgDownloadData) : JsonObject :=
  [("type", .int it.hostInfo.type), ("url", .string (cStr it.hostInfo.url))] ++
  (if it.hostInfo.type = ClientType.httpServer.toInt then
    [("http_server_type", .string (cStr it.hostInfo.httpServerType))] else []) ++
  [("username", .string (cStr it.hostInfo.username)),
    ("password", .string (cStr (savedPassword c it.hostInfo.password))),
    ("src_path", .string (cStr it.srcPath)),
    ("dest_path", .string (cStr it.destPath)),
    ("file_size", .uint64 it.fileSize),
    ("bytes_transfered", .uint64 it.bytesTransfered),
    ("state", .int it.state.toInt),
    ("id", .uint64 it.id),
    ("timestamp", .uint64 it.timestamp),
    ("failed_attempts", .int it.failedAttempts)]

/-- `SaveBgDownloadData`: what the file holds afterwards. -/
def saveBgDownloadData (now : UInt64) (rows : List BgDownloadData) : List JsonObject :=
  (rows.filter (retained now)).map (saveItem c)

def loadItem (o : JsonObject) : Option BgDownloadData := do
  let type ← getInt o "type"
  let url ← jsonGetString o "url"
  let username ← jsonGetString o "username"
  let encryptedPassword ← jsonGetString o "password"
  let httpServerType ←
    if type = ClientType.httpServer.toInt then jsonGetString o "http_server_type" else some []
  let password := (c.decrypt encryptedPassword).getD encryptedPassword
  let srcPath ← jsonGetString o "src_path"
  let destPath ← jsonGetString o "dest_path"
  let fileSize ← getUint64 o "file_size"
  let bytesTransfered ← getUint64 o "bytes_transfered"
  let state ← (getInt o "state").bind DownloadState.ofInt
  let id ← getUint64 o "id"
  let timestamp ← getUint64 o "timestamp"
  let failedAttempts ← getInt o "failed_attempts"
  pure { hostInfo := ⟨type, url, httpServerType, username, password⟩
         srcPath, destPath, bytesTransfered, fileSize, state, id, timestamp, failedAttempts }

/-- `LoadBgDownloadData` into an empty list. -/
def loadBgDownloadData (file : List JsonObject) : Option (List BgDownloadData) :=
  file.mapM (loadItem c)

/-- A row after a save and a load. -/
def reloaded (r : BgDownloadData) : BgDownloadData :=
  let encryptedPassword := cStr (savedPassword c r.hostInfo.password)
  { hostInfo :=
      { type := clampInt32 r.hostInfo.type
        url := cStr r.hostInfo.url
        httpServerType := if r.hostInfo.type = ClientType.httpServer.toInt then
          cStr r.hostInfo.httpServerType else []
        username := cStr r.hostInfo.username
        password := (c.decrypt encryptedPassword).getD encryptedPassword }
    srcPath := cStr r.srcPath
    destPath := cStr r.destPath
    bytesTransfered := r.bytesTransfered
    fileSize := r.fileSize
    state := r.state
    id := r.id
    timestamp := r.timestamp
    failedAttempts := clampInt32 r.failedAttempts }

theorem ofInt_clampInt32 (s : DownloadState) :
    DownloadState.ofInt (clampInt32 s.toInt) = some s := by
  cases s <;> decide

theorem loadItem_saveItem (r : BgDownloadData) :
    loadItem c (saveItem c r) = some (reloaded c r) := by
  by_cases ht : r.hostInfo.type = ClientType.httpServer.toInt
  · have hclamp : clampInt32 ClientType.httpServer.toInt = ClientType.httpServer.toInt := by decide
    simp [loadItem, saveItem, reloaded, getInt, getUint64, jsonGetString, List.lookup_cons, ht,
      hclamp, ofInt_clampInt32]
  · simp [loadItem, saveItem, reloaded, getInt, getUint64, jsonGetString, List.lookup_cons, ht,
      ofInt_clampInt32]

/-- Loading what a save wrote gives back the retained rows in their order. -/
theorem load_save (now : UInt64) (rows : List BgDownloadData) :
    loadBgDownloadData c (saveBgDownloadData c now rows) =
      some ((rows.filter (retained now)).map (reloaded c)) := by
  unfold loadBgDownloadData saveBgDownloadData
  induction rows.filter (retained now) with
  | nil => rfl
  | cons r rows ih =>
    rw [List.map_cons, List.mapM_cons, ih, loadItem_saveItem]
    rfl

theorem reloaded_eligible (r : BgDownloadData) : (reloaded c r).Eligible ↔ r.Eligible := by
  have hattempts : clampInt32 r.failedAttempts < 5 ↔ r.failedAttempts < 5 := by
    simp only [clampInt32]
    omega
  simp only [BgDownloadData.Eligible, BgDownloadData.Interrupted, reloaded, hattempts]

/-- After the process ends here, every unfinished row of the file is picked up
again by the next one. -/
def Recoverable (now : UInt64) (rows : List BgDownloadData) : Prop :=
  ∃ rows', loadBgDownloadData c (saveBgDownloadData c now rows) = some rows' ∧
    List.Forall₂ (fun r r' => ¬ r.Finished → r'.Eligible) (rows.filter (retained now)) rows'

theorem recoverable_iff (now : UInt64) (rows : List BgDownloadData) :
    Recoverable c now rows ↔ ∀ r ∈ rows, retained now r → r.state ≠ .resumed := by
  have hrow : ∀ r : BgDownloadData, (¬ r.Finished → (reloaded c r).Eligible) ↔
      r.state ≠ .resumed := by
    intro r
    rw [reloaded_eligible, ← r.finished_or_eligible_iff]
    exact or_iff_not_imp_left.symm
  unfold Recoverable
  rw [load_save]
  simp only [Option.some.injEq, exists_eq_left', List.forall₂_map_right_iff, List.forall₂_same, hrow,
    List.mem_filter, and_imp]

end EzRemote.Download
